import CHttp.Runloop.EvfdQueue

/-!
# The run loop

`reactor.c` and `fdtable.c`. A reactor has a table of the watchers registered for descriptors, the
set of descriptors that `epoll` watches, and a ready list of posted functors. `rtor_reactor_run`
waits for a batch of events, calls the watcher of each descriptor in it, runs the functors that
were posted until there are none left, and waits again.

A `ReactorRun` is a reactor with the point of the loop where it stands and a history. What a handler
or a functor does while it runs is a list of operations, given in the action: it may register and
deregister any descriptor, close it, free a watcher, and post. So a statement about every list of
actions is a statement about every behaviour of the handlers. Watchers are told apart by identity,
not by address: a new watcher is another one even if it is allocated where an old one was.
-/

namespace CHttp

/-- `RTOR_MAX_EPOLL_FDS`, the most events of one batch. -/
def rtorMaxEpollFds : ℕ := rtorMaxFds

/-! ### The table of watchers -/

/-- `FdTable`. -/
structure FdTable (W : Type) where
  count : ℕ
  entries : Fin rtorFdtableMax → Option W

namespace FdTable

variable {W : Type}

/-- `FdTable_new`. -/
def new : FdTable W := ⟨0, fun _ => none⟩

/-- The entry of a descriptor. Those past the array have none. -/
def entry (this : FdTable W) (fd : ℕ) : Option W :=
  if h : fd < rtorFdtableMax then this.entries ⟨fd, h⟩ else none

/-- `FdTable_insert`. -/
def insert (this : FdTable W) (watcher : W) (fd : ℕ) : Except Abort (FdTable W) :=
  if h : fd < rtorFdtableMax then do
    assertThat (this.entries ⟨fd, h⟩).isNone "FdTable_insert" "this->entries[fd] == NULL"
    return ⟨this.count + 1, Function.update this.entries ⟨fd, h⟩ (some watcher)⟩
  else .error ⟨"FdTable_insert", "entries[fd] is past the end of the array"⟩

/-- `FdTable_remove`. -/
def remove (this : FdTable W) (fd : ℕ) : Except Abort (FdTable W) :=
  if h : fd < rtorFdtableMax then do
    assertThat (this.entries ⟨fd, h⟩).isSome "FdTable_remove" "athis->entries[fd] != NULL"
    return ⟨this.count - 1, Function.update this.entries ⟨fd, h⟩ none⟩
  else .error ⟨"FdTable_remove", "entries[fd] is past the end of the array"⟩

/-- `FdTable_lookup`. -/
def lookup (this : FdTable W) (fd : ℕ) : Except Abort W :=
  if h : fd < rtorFdtableMax then
    match this.entries ⟨fd, h⟩ with
    | some watcher => .ok watcher
    | none => .error ⟨"FdTable_lookup", "this->entries[fd] != NULL"⟩
  else .error ⟨"FdTable_lookup", "entries[fd] is past the end of the array"⟩

/-- `FdTable_size`. -/
def size (this : FdTable W) : ℕ := this.count

/-- `FdTable_lookup` returns the entry, if there is one. -/
theorem lookup_eq_ok {this : FdTable W} {fd : ℕ} {wref : W} :
    this.lookup fd = .ok wref ↔ this.entry fd = some wref := by
  unfold lookup entry
  split
  · split
    · rename_i w heq
      rw [heq, Except.ok.injEq, Option.some.injEq]
    · rename_i heq
      rw [heq]
      exact iff_of_false (by simp) (by simp)
  · exact iff_of_false (by simp) (by simp)

end FdTable

/-! ### The reactor -/

/-- `Reactor`, the parts that the loop works on. `epollOpen` says that `epoll_fd` is not closed, and
`epoll` is what the kernel keeps for it: the descriptors watched, each with its interest.
`interthreadQueue` is the descriptor of the interthread queue's watcher, once there is one. -/
structure RtorReactor (W F A : Type) where
  table : FdTable W
  epollOpen : Bool
  epoll : ℕ → Option UInt32
  readyList : FunctorList (Functor F A)
  interthreadQueue : Option ℕ

/-- The operations of `epoll_ctl`. -/
inductive EpollCtl
  | add
  | mod
  | del
  deriving DecidableEq, Repr

namespace RtorReactor

variable {W F A : Type}

/-- `rtor_reactor_new`. -/
def new (junk : ℕ → Functor F A) : Except Abort (RtorReactor W F A) := do
  return ⟨.new, true, fun _ => none, ← FunctorList.new rtorReadyListMax junk, none⟩

/-- `rtor_epoll_ctl`: `epoll_ctl` fails when `epoll_fd` is closed, when a descriptor to be added is
there, and when one to be changed or deleted is not. -/
def rtorEpollCtl (athis : RtorReactor W F A) (op : EpollCtl) (fd : ℕ) (interest : UInt32) :
    Except Abort (RtorReactor W F A) := do
  assertThat (athis.epollOpen ∧ (athis.epoll fd).isSome = (op ≠ .add)) "rtor_epoll_ctl"
    "epoll ctl call failed"
  return { athis with
    epoll := Function.update athis.epoll fd (if op = .del then none else some interest) }

/-- `rtor_reactor_register`. -/
def register (athis : RtorReactor W F A) (fd : ℕ) (interest : UInt32) (wref : W) :
    Except Abort (RtorReactor W F A) := do
  let athis ← athis.rtorEpollCtl .add fd interest
  return { athis with table := ← athis.table.insert wref fd }

/-- `rtor_reactor_deregister`. -/
def deregister (athis : RtorReactor W F A) (fd : ℕ) : Except Abort (RtorReactor W F A) := do
  let _ ← athis.table.lookup fd
  let athis ← athis.rtorEpollCtl .del fd 0
  return { athis with table := ← athis.table.remove fd }

/-- `rtor_reactor_reregister`. -/
def reregister [DecidableEq W] (athis : RtorReactor W F A) (fd : ℕ) (interest : UInt32) (wref : W) :
    Except Abort (RtorReactor W F A) := do
  let _ ← athis.table.lookup fd
  let athis ← athis.rtorEpollCtl .mod fd interest
  let wrefTmp ← athis.table.lookup fd
  assertThat (wref = wrefTmp) "rtor_reactor_reregister" "wref == wref_tmp"
  return athis

/-- `rtor_reactor_delete`: `epoll` goes on watching the descriptor. -/
def delete (athis : RtorReactor W F A) (fd : ℕ) : Except Abort (RtorReactor W F A) := do
  let _ ← athis.table.lookup fd
  return { athis with table := ← athis.table.remove fd }

/-- `EPOLLIN | EPOLLERR | EPOLLRDHUP | EPOLLHUP`. -/
def wqueueInterest : UInt32 := 0x2019

/-- `rtor_reactor_enable_interthread_queue`, whose eventfd is `fd`. -/
def enableInterthreadQueue (athis : RtorReactor W F A) (fd : ℕ) (wref : W) :
    Except Abort (RtorReactor W F A) :=
  { athis with interthreadQueue := some fd }.register fd wqueueInterest wref

/-- `rtor_reactor_close`. All descriptors in the table are closed too; the iterator over it asserts
that the last entry is not used. -/
def close (athis : RtorReactor W F A) : Except Abort (RtorReactor W F A) := do
  assertThat athis.epollOpen "rtor_reactor_close" "close epoll_fd failed"
  assertThat (athis.table.entry (rtorFdtableMax - 1)).isNone "FdTable_next_iterator"
    "iter+1 < RTOR_FDTABLE_MAX"
  return { athis with epollOpen := false, epoll := fun _ => none }

/-- `rtor_reactor_post`. -/
def post (athis : RtorReactor W F A) (cb : F) (arg : A) : Except Abort (RtorReactor W F A) := do
  return { athis with readyList := ← athis.readyList.add ⟨cb, arg⟩ }

end RtorReactor

/-! ### The loop -/

/-- An event of a batch, with the entry that its descriptor had when it was reported. -/
structure Event (W : Type) where
  fd : ℕ
  mask : UInt32
  reported : Option W

/-- Where the program stands: outside the loop, in `epoll_wait`, before the call of the handler for
an event, in that handler, before the call of a ready functor; or the loop has just returned. -/
inductive ReactorControl (W : Type)
  | outside
  | waiting
  | dispatching (ev : Event W) (rest : List (Event W))
  | handling (wref : W) (rest : List (Event W))
  | draining
  | returned

/-- History of a call: the event's descriptor and the entry it had when the event was reported,
whether it was removed from the table since, and the watcher called. -/
structure Dispatch (W : Type) where
  fd : ℕ
  reported : Option W
  stale : Bool
  called : W

/-- What ends a run early: the dispatch of an event; an assertion in a function that a handler, a
functor or the program called; the assertion `functor_list_size(athis->ready_list) == 0` at the top
of the loop; an assertion in another function that the loop called. -/
inductive RunFault
  | dispatch (e : Abort)
  | operation (e : Abort)
  | notDrained
  | loop (e : Abort)
  deriving DecidableEq, Repr

/-- A reactor, where its loop stands, the watchers that were freed, and the history: the descriptors
removed from the table since the last batch was reported; the functors posted and those executed,
and the calls of handlers, oldest first. -/
structure ReactorRun (W F A : Type) where
  reactor : RtorReactor W F A
  control : ReactorControl W
  freed : List W
  removed : List ℕ
  posted : List (Functor F A)
  executed : List (Functor F A)
  dispatched : List (Dispatch W)

/-- What handlers, functors and the program around the loop may do to the reactor. `close` is the
system call, after which `epoll` does not watch the descriptor; `free` frees a watcher. -/
inductive ReactorOp (W F A : Type)
  | register (fd : ℕ) (interest : UInt32) (wref : W)
  | deregister (fd : ℕ)
  | reregister (fd : ℕ) (interest : UInt32) (wref : W)
  | delete (fd : ℕ)
  | enableInterthreadQueue (fd : ℕ) (wref : W)
  | post (cb : F) (arg : A)
  | closeReactor
  | close (fd : ℕ)
  | free (wref : W)

namespace ReactorRun

variable {W F A : Type}

/-- A reactor, before its loop is run. -/
def start (r : RtorReactor W F A) : ReactorRun W F A :=
  ⟨r, .outside, [], [], r.readyList.toList, [], []⟩

/-- What happens next: the program calls an operation, or `rtor_reactor_run`; `epoll_wait` fails or
returns descriptors with their masks; the handler for the next event is called; it has done
some operations and returns; a ready functor is called, does some operations and returns. -/
inductive Act (W F A : Type)
  | operation (op : ReactorOp W F A)
  | run
  | wait (ready : Option (List (ℕ × UInt32)))
  | dispatch
  | handler (ops : List (ReactorOp W F A))
  | functor (ops : List (ReactorOp W F A))

/-- The ready list is to be empty before `epoll_wait` is called. -/
def epollWait (s : ReactorRun W F A) : Except RunFault (ReactorRun W F A) :=
  if s.reactor.readyList.size = 0 then .ok { s with control := .waiting }
  else .error .notDrained

/-- The top of the loop. It returns when no descriptor is registered, or only the one of the
interthread queue. -/
def top (s : ReactorRun W F A) : Except RunFault (ReactorRun W F A) :=
  if s.reactor.table.size = 0 then .ok { s with control := .returned }
  else
    match s.reactor.interthreadQueue with
    | some fd =>
      if s.reactor.table.size = 1 then do
        let reactor ← (s.reactor.deregister fd).mapError .loop
        return { s with reactor, control := .returned }
      else s.epollWait
    | none => s.epollWait

/-- The start of the inner loop, after the handlers and after each functor. -/
def drain (s : ReactorRun W F A) : Except RunFault (ReactorRun W F A) :=
  if s.reactor.readyList.size = 0 then s.top else .ok { s with control := .draining }

/-- The loop over the batch goes on with its next event, or is over. -/
def nextEvent (s : ReactorRun W F A) : List (Event W) → Except RunFault (ReactorRun W F A)
  | [] => s.drain
  | ev :: rest => .ok { s with control := .dispatching ev rest }

/-- What `epoll_wait` can return: some of the descriptors watched, each once. -/
def Reportable (s : ReactorRun W F A) (ready : List (ℕ × UInt32)) : Prop :=
  s.reactor.epollOpen ∧ ready.length ≤ rtorMaxEpollFds ∧ (ready.map Prod.fst).Nodup ∧
    ∀ p ∈ ready, (s.reactor.epoll p.1).isSome

instance (s : ReactorRun W F A) (ready : List (ℕ × UInt32)) : Decidable (s.Reportable ready) :=
  inferInstanceAs (Decidable (_ ∧ _ ∧ _ ∧ ∀ p ∈ ready, _))

/-- `epoll_wait` returns. -/
def wait (s : ReactorRun W F A) : Option (List (ℕ × UInt32)) → Except RunFault (ReactorRun W F A)
  | none => .ok { s with control := .returned }
  -- the timeout is infinite; should it pass, the `epoll` descriptor is closed
  | some [] => .ok { s with
      reactor.epollOpen := false
      reactor.epoll := fun _ => none
      control := .returned }
  | some (p :: ready) =>
    if s.Reportable (p :: ready) then
      nextEvent { s with removed := [] }
        ((p :: ready).map fun q => ⟨q.1, q.2, s.reactor.table.entry q.1⟩)
    else .ok s

section
variable [DecidableEq W]

/-- One operation. -/
def operation (s : ReactorRun W F A) : ReactorOp W F A → Except Abort (ReactorRun W F A)
  | .register fd interest wref => do
    return { s with reactor := ← s.reactor.register fd interest wref }
  | .deregister fd => do
    return { s with reactor := ← s.reactor.deregister fd, removed := fd :: s.removed }
  | .reregister fd interest wref => do
    return { s with reactor := ← s.reactor.reregister fd interest wref }
  | .delete fd => do
    return { s with reactor := ← s.reactor.delete fd, removed := fd :: s.removed }
  | .enableInterthreadQueue fd wref => do
    return { s with reactor := ← s.reactor.enableInterthreadQueue fd wref }
  | .post cb arg => do
    return { s with reactor := ← s.reactor.post cb arg, posted := s.posted ++ [⟨cb, arg⟩] }
  | .closeReactor => do return { s with reactor := ← s.reactor.close }
  | .close fd => .ok { s with reactor.epoll := Function.update s.reactor.epoll fd none }
  | .free wref => .ok { s with freed := wref :: s.freed }

/-- The operations of one handler or functor. -/
def operations (s : ReactorRun W F A) (ops : List (ReactorOp W F A)) :
    Except RunFault (ReactorRun W F A) :=
  (ops.foldlM operation s).mapError .operation

/-- The watcher of an event is looked up and its handler called. -/
def dispatch (s : ReactorRun W F A) (ev : Event W) (rest : List (Event W)) :
    Except RunFault (ReactorRun W F A) := do
  let wref ← (s.reactor.table.lookup ev.fd).mapError .dispatch
  -- `wref->handler`
  if wref ∈ s.freed then .error (.dispatch ⟨"rtor_reactor_run", "the watcher was freed"⟩)
  else return { s with
    control := .handling wref rest
    dispatched := s.dispatched ++ [⟨ev.fd, ev.reported, ev.fd ∈ s.removed, wref⟩] }

/-- One turn of the inner loop: the oldest ready functor runs. -/
def functor (s : ReactorRun W F A) (ops : List (ReactorOp W F A)) :
    Except RunFault (ReactorRun W F A) := do
  let (func, readyList) ← s.reactor.readyList.remove.mapError .loop
  let s ← { s with reactor.readyList := readyList, executed := s.executed ++ [func] }.operations ops
  s.drain

/-- One action. What does not fit the point where the loop stands does nothing. -/
def step (s : ReactorRun W F A) (a : Act W F A) : Except RunFault (ReactorRun W F A) :=
  match s.control, a with
  | .outside, .operation op | .returned, .operation op => do
    return { ← s.operations [op] with control := .outside }
  | .outside, .run | .returned, .run => s.top
  | .waiting, .wait ready => s.wait ready
  | .dispatching ev rest, .dispatch => s.dispatch ev rest
  | .handling _ rest, .handler ops => do (← s.operations ops).nextEvent rest
  | .draining, .functor ops => s.functor ops
  | _, _ => .ok s

end

end ReactorRun

end CHttp
