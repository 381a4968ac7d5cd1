import CHttp.Async.Invariant
import CHttp.Common.ListRuns

/-!
# The handlers of an asynchronous server

`async_server.c` on one reactor thread: `on_event_listening` makes a handler for each accepted
socket and puts it at the back of `handler_list`, which owns it; a handler whose connection is to be
closed is found on the list by its address and removed, and the list disposes of it. Between the two
its connection runs as in `World`, interleaved with the other connections in any way.

The handler list is the linked list of `list.c`. A handler is given by its address; an address is
used again when its handler was disposed of.
-/

namespace CHttp

/-- `AsyncServer`: the list, and at each address the handler that was last there, as the number of
handlers made before it and its connection. `created` counts the handlers. -/
structure AsyncServer (L : Llhttp) where
  handlerList : LinkedList ℕ
  handlers : ℕ → Option (ℕ × World L)
  created : ℕ

/-- A fault in a connection, or an assertion of the server or of its list. -/
inductive ServerFault
  | conn (href : ℕ) (f : Fault)
  | server (e : Abort)
  deriving DecidableEq, Repr

namespace AsyncServer

variable {L : Llhttp}

/-- A call in the server's own code. -/
def own {α : Type} : Except Abort α → Except ServerFault α
  | .ok a => .ok a
  | .error e => .error (.server e)

/-- A call in the code of the handler at `href`. -/
def inConn {α : Type} (href : ℕ) : Except Fault α → Except ServerFault α
  | .ok a => .ok a
  | .error f => .error (.conn href f)

/-- `AsyncServer_init_with_socket`; `async_handler_anonymous_dispose` clears the pointer. -/
def init (L : Llhttp) : AsyncServer L := ⟨LinkedList.new .clears, fun _ => none, 0⟩

/-- The address can be allocated: no handler is there. -/
def vacant (this : AsyncServer L) (href : ℕ) : Bool :=
  match this.handlers href with
  | none => true
  | some (_, w) => w.life = .freed

/-- `accept` failed in the listening socket. -/
def acceptFailed : Abort := ⟨"on_event_listening", "accept returns invalid socket"⟩

/-- `on_event_listening`, with what `accept` returns, `errno` after it, and the memory that the new
handler gets. The new connection reads at once, before the handler is on the list. -/
def onEventListening (this : AsyncServer L) (sock2 : ℤ) (errno href : ℕ) (heap : Heap)
    (memory : ByteMemory) (io : Io) : Except ServerFault (AsyncServer L) :=
  if sock2 ≤ 0 then if errno = eagain then .ok this else .error (.server acceptFailed)
  else do
    let w ← inConn href ((World.init L heap memory).step (.accept io))
    let lst ← own (this.handlerList.addBack (some href))
    return {
      handlerList := lst
      handlers := Function.update this.handlers href (some (this.created, w))
      created := this.created + 1 }

/-- `on_handler_completion_cb`. -/
def onHandlerCompletionCb (this : AsyncServer L) (href : ℕ) :
    Except ServerFault (AsyncServer L) := do
  let x ← own (this.handlerList.find (some href))
  let _href ← own (this.handlerList.itrUnpack x)
  let lst ← own (this.handlerList.itrRemove x)
  return { this with handlerList := lst }

/-- Something happens to the connection at `href`. If that frees it, the handler was given to
`on_handler_completion_cb`. -/
def connStep (this : AsyncServer L) (href : ℕ) (a : World.Act) :
    Except ServerFault (AsyncServer L) :=
  match this.handlers href with
  | none => .ok this
  | some (k, w) => do
    let w' ← inConn href (w.step a)
    let this := { this with handlers := Function.update this.handlers href (some (k, w')) }
    if w.life = .open ∧ w'.life = .freed then this.onHandlerCompletionCb href else return this

/-- What can happen next: an event of the listening socket, or one of a connection, or the reactor
runs the oldest functor of a connection, or the application posts one. -/
inductive Act
  | listening (sock2 : ℤ) (errno href : ℕ) (heap : Heap) (memory : ByteMemory) (io : Io)
  | event (href : ℕ) (mask : UInt64)
  | run (href : ℕ) (io : Io)
  | appPost (href : ℕ)

/-- One action; `malloc` gives a new handler an address that is not in use. -/
def step (this : AsyncServer L) : Act → Except ServerFault (AsyncServer L)
  | .listening sock2 errno href heap memory io =>
    if this.vacant href then this.onEventListening sock2 errno href heap memory io else .ok this
  | .event href mask => this.connStep href (.event mask)
  | .run href io => this.connStep href (.run io)
  | .appPost href => this.connStep href .appPost

/-! ### The invariant -/

/-- The handler at an address has not been disposed of. -/
def Live (s : AsyncServer L) (href : ℕ) : Prop :=
  ∃ k w, s.handlers href = some (k, w) ∧ w.life = .open

/-- The number of handlers made before the one at an address. -/
def born (s : AsyncServer L) (href : ℕ) : ℕ := ((s.handlers href).map Prod.fst).getD 0

/-- The handlers `hrefs` are on the list in this order: they are those that live, oldest first. -/
structure Lists (s : AsyncServer L) (hrefs : List ℕ) : Prop where
  represents : ∃ xs, s.handlerList.Represents xs ∧ xs.map Prod.snd = hrefs.map some
  live : ∀ href, href ∈ hrefs ↔ s.Live href
  oldestFirst : hrefs.Pairwise fun a b => s.born a < s.born b

/-- What holds after every action. -/
structure Inv (s : AsyncServer L) : Prop where
  listed : ∃ hrefs, s.Lists hrefs ∧ s.handlerList.deallocated.length + hrefs.length = s.created
  dealloc : s.handlerList.dealloc = .clears
  born_lt : ∀ href k w, s.handlers href = some (k, w) → k < s.created
  conns : ∀ href k w, s.handlers href = some (k, w) → w.Reachable ∧ w.life ≠ .embryo

theorem init_inv (L : Llhttp) : (init L).Inv where
  listed := by
    refine ⟨[], ⟨⟨[], LinkedList.new_represents .clears, rfl⟩, fun href => ?_, .nil⟩, rfl⟩
    constructor
    · intro h
      cases h
    · rintro ⟨k, w, h, -⟩
      cases h
  dealloc := rfl
  born_lt _ _ _ h := by cases h
  conns _ _ _ h := by cases h

variable {s : AsyncServer L} {href : ℕ} {k : ℕ} {w w' : World L}

/-- A new connection is open. -/
theorem life_of_accept {heap : Heap} {memory : ByteMemory} {io : Io}
    (hs : (World.init L heap memory).step (.accept io) = .ok w) : w.life = .open := by
  have hc := World.init_coherent L heap memory
  obtain ⟨st, hm⟩ := World.move_of_step hc hs
  have hlife := (hm.coherent hc).life
  cases hm with
  | stay hi => cases hi
  | accept ho =>
    rw [hlife]
    cases ho <;> rfl

/-- A connection does not become new again. -/
theorem life_of_step (h : w.Reachable) (hl : w.life ≠ .embryo) {a : World.Act}
    (hs : w.step a = .ok w') : w'.life = .open ∨ w'.life = .freed := by
  obtain ⟨st, hst⟩ := h.sound
  obtain ⟨st', hm⟩ := World.move_of_step hst hs
  have hlife := (hm.coherent hst).life
  have hne : st ≠ .embryo := by
    rintro rfl
    exact hl hst.life
  have hne' : st' ≠ .embryo := by
    cases hm with
    | stay _ => exact hne
    | accept ho | read ho | complete ho => cases ho <;> simp
    | write _ _ _ ho => cases ho <;> simp
    | _ => simp
  rw [hlife]
  cases st' with
  | embryo => exact absurd rfl hne'
  | freed => exact .inr rfl
  | _ => exact .inl rfl

private theorem reachable_of_step (h : w.Reachable) {a : World.Act} (hs : w.step a = .ok w') :
    w'.Reachable := by
  obtain ⟨heap, memory, as, hr⟩ := h
  refine ⟨heap, memory, as ++ [a], ?_⟩
  rw [Machine.run_append hr, Machine.run_cons_ok hs]
  rfl

/-- The connection of a handler goes on. -/
theorem born_update (hh : s.handlers href = some (k, w)) (w' : World L) (a : ℕ) :
    ({ s with handlers := Function.update s.handlers href (some (k, w')) } : AsyncServer L).born a =
      s.born a := by
  by_cases ha : a = href
  · subst ha
    simp [born, hh]
  · simp [born, ha]

/-- What a change of one connection keeps. -/
theorem Inv.update (h : s.Inv) (hh : s.handlers href = some (k, w)) (hr : w'.Reachable)
    (hl : w'.life ≠ .embryo) :
    (∀ a j v, Function.update s.handlers href (some (k, w')) a = some (j, v) → j < s.created) ∧
      ∀ a j v, Function.update s.handlers href (some (k, w')) a = some (j, v) →
        v.Reachable ∧ v.life ≠ .embryo := by
  constructor
  · intro a j v hv
    by_cases ha : a = href
    · subst ha
      simp only [Function.update_self, Option.some.injEq, Prod.mk.injEq] at hv
      exact hv.1 ▸ h.born_lt a k w hh
    · rw [Function.update_of_ne ha] at hv
      exact h.born_lt a j v hv
  · intro a j v hv
    by_cases ha : a = href
    · subst ha
      simp only [Function.update_self, Option.some.injEq, Prod.mk.injEq] at hv
      exact hv.2 ▸ ⟨hr, hl⟩
    · rw [Function.update_of_ne ha] at hv
      exact h.conns a j v hv

/-- A connection goes on and stays open. -/
theorem Inv.goes_on (h : s.Inv) (hh : s.handlers href = some (k, w)) (hopen : w.life = .open)
    (hr : w'.Reachable) (hl : w'.life = .open) :
    ({ s with handlers := Function.update s.handlers href (some (k, w')) } :
      AsyncServer L).Inv := by
  obtain ⟨hrefs, hlists, hcount⟩ := h.listed
  obtain ⟨hborn, hconns⟩ := h.update hh hr (by simp [hl])
  refine ⟨⟨hrefs, ⟨hlists.represents, fun a => ?_, ?_⟩, hcount⟩, h.dealloc, hborn, hconns⟩
  · rw [hlists.live a]
    by_cases ha : a = href
    · subst ha
      refine iff_of_true ⟨k, w, hh, hopen⟩ ⟨k, w', ?_, hl⟩
      exact Function.update_self ..
    · simp [Live, ha]
  · simpa only [born_update hh] using hlists.oldestFirst

/-- `on_handler_completion_cb` for a handler whose connection was freed. -/
theorem Inv.completes (h : s.Inv) (hh : s.handlers href = some (k, w)) (hopen : w.life = .open)
    (hr : w'.Reachable) (hl : w'.life = .freed) :
    ∃ s', ({ s with handlers := Function.update s.handlers href (some (k, w')) } :
        AsyncServer L).onHandlerCompletionCb href = .ok s' ∧ s'.Inv := by
  obtain ⟨hrefs, ⟨⟨xs, hrep, hitems⟩, hlive, hsorted⟩, hcount⟩ := h.listed
  obtain ⟨hborn, hconns⟩ := h.update hh hr (by simp [hl])
  have hmem : href ∈ hrefs := (hlive href).mpr ⟨k, w, hh, hopen⟩
  -- the handler is on the list, where the search finds it
  have hfound : (xs.find? fun x => x.2 = some href).isSome = true := by
    rw [List.find?_isSome]
    have hin : some href ∈ xs.map Prod.snd := by
      rw [hitems]
      exact List.mem_map_of_mem hmem
    obtain ⟨x, hx, hxh⟩ := List.mem_map.mp hin
    exact ⟨x, hx, by simpa using hxh⟩
  obtain ⟨x, hx⟩ := Option.isSome_iff_exists.mp hfound
  obtain ⟨hxh, before, after, rfl, -⟩ := List.find?_eq_some_iff_append.mp hx
  have hxh : x.2 = some href := by simpa using hxh
  obtain ⟨lst, hremove, hrep'⟩ := hrep.itrRemove
  obtain ⟨hd, hdeallocated⟩ := hrep.deallocated_of_itrRemove hremove
  -- the same cut on the side of the addresses
  rw [List.map_append, List.map_cons, hxh] at hitems
  obtain ⟨older, later, rfl, holder, hlater⟩ := List.append_eq_map_iff.mp hitems
  obtain ⟨href', younger, rfl, heq, hyounger⟩ := List.map_eq_cons_iff.mp hlater
  obtain rfl : href' = href := Option.some.inj heq
  have hnodup : (older ++ href' :: younger).Nodup := by
    refine hsorted.imp ?_
    rintro a b hab rfl
    exact Nat.lt_irrefl _ hab
  have hgone : href' ∉ older ++ younger := (List.nodup_middle.mp hnodup).notMem
  let s₁ : AsyncServer L :=
    { s with handlers := Function.update s.handlers href' (some (k, w')) }
  have hfind : s.handlerList.find (some href') = .ok (some x.1) := by
    rw [hrep.find, hx]
    rfl
  refine ⟨{ s₁ with handlerList := lst }, ?_, ⟨⟨older ++ younger, ⟨?_, fun a => ?_, ?_⟩, ?_⟩, ?_,
    hborn, hconns⟩⟩
  · simp only [onHandlerCompletionCb, hfind, own, Except.ok_bind, hrep.itrUnpack, hremove]
    rfl
  · exact ⟨before ++ after, hrep', by rw [List.map_append, List.map_append, ← holder, hyounger]⟩
  · by_cases ha : a = href'
    · subst ha
      refine iff_of_false hgone ?_
      rintro ⟨j, v, hv, hvl⟩
      simp only [s₁, Function.update_self, Option.some.injEq, Prod.mk.injEq] at hv
      rw [← hv.2, hl] at hvl
      cases hvl
    · have hiff : a ∈ older ++ younger ↔ a ∈ older ++ href' :: younger := by simp [ha]
      rw [hiff, hlive a]
      simp [Live, s₁, ha]
  · have hsub : (older ++ younger).Sublist (older ++ href' :: younger) :=
      (List.sublist_cons_self _ _).append_left _
    refine (hsorted.sublist hsub).imp ?_
    intro a b hab
    change s₁.born a < s₁.born b
    rwa [born_update hh, born_update hh]
  · have hone : (LinkedList.due s.handlerList.dealloc [x]).length = 1 := by
      simp [LinkedList.due, h.dealloc, hxh]
    rw [hdeallocated, List.length_append, hone, ← hcount]
    simp only [List.length_append, List.length_cons]
    omega
  · exact hd.trans h.dealloc

/-- A handler for a new connection. -/
theorem Inv.accepts (h : s.Inv) (hv : s.vacant href = true) (hr : w.Reachable)
    (hl : w.life = .open) :
    ∃ lst, s.handlerList.addBack (some href) = .ok lst ∧
      ({ handlerList := lst
         handlers := Function.update s.handlers href (some (s.created, w))
         created := s.created + 1 } : AsyncServer L).Inv := by
  obtain ⟨hrefs, ⟨⟨xs, hrep, hitems⟩, hlive, hsorted⟩, hcount⟩ := h.listed
  obtain ⟨lst, hadd, hrep'⟩ := hrep.addBack (some href)
  have hquiet := LinkedList.quiet_of_addBack hadd
  have hnew : href ∉ hrefs := by
    intro hmem
    obtain ⟨j, v, hj, hopen⟩ := (hlive href).mp hmem
    simp [vacant, hj, hopen] at hv
  refine ⟨lst, hadd, ⟨hrefs ++ [href], ⟨⟨_, hrep', ?_⟩, fun a => ?_, ?_⟩, ?_⟩, ?_, ?_, ?_⟩
  · rw [List.map_append, List.map_append, hitems]
    rfl
  · by_cases ha : a = href
    · subst ha
      refine iff_of_true (by simp) ⟨s.created, w, ?_, hl⟩
      exact Function.update_self ..
    · have hiff : a ∈ hrefs ++ [href] ↔ a ∈ hrefs := by simp [ha]
      rw [hiff, hlive a]
      simp [Live, ha]
  · -- the new handler is younger than those on the list
    let s₁ : AsyncServer L :=
      ⟨lst, Function.update s.handlers href (some (s.created, w)), s.created + 1⟩
    have hborn : ∀ a ∈ hrefs, s₁.born a = s.born a ∧ s.born a < s.created := by
      intro a ha
      obtain ⟨j, v, hj, -⟩ := (hlive a).mp ha
      have hne : a ≠ href := fun heq => hnew (heq ▸ ha)
      have hlt := h.born_lt a j v hj
      exact ⟨by simp [born, s₁, hne], by simpa [born, hj] using hlt⟩
    have hlast : s₁.born href = s.created := by simp [born, s₁]
    refine List.pairwise_append.mpr ⟨?_, List.pairwise_singleton _ _, fun a ha b hb => ?_⟩
    · refine hsorted.imp_of_mem ?_
      intro a b ha hb hab
      change s₁.born a < s₁.born b
      rwa [(hborn a ha).1, (hborn b hb).1]
    · obtain rfl := List.mem_singleton.mp hb
      change s₁.born a < s₁.born b
      rw [(hborn a ha).1, hlast]
      exact (hborn a ha).2
  · change lst.deallocated.length + (hrefs ++ [href]).length = s.created + 1
    rw [hquiet.deallocated, List.length_append, List.length_singleton]
    omega
  · exact hquiet.dealloc.trans h.dealloc
  · intro a j v hj
    change j < s.created + 1
    change Function.update s.handlers href (some (s.created, w)) a = some (j, v) at hj
    by_cases ha : a = href
    · subst ha
      simp only [Function.update_self, Option.some.injEq, Prod.mk.injEq] at hj
      exact hj.1 ▸ Nat.lt_succ_self _
    · rw [Function.update_of_ne ha] at hj
      exact Nat.lt_succ_of_lt (h.born_lt a j v hj)
  · intro a j v hj
    change Function.update s.handlers href (some (s.created, w)) a = some (j, v) at hj
    by_cases ha : a = href
    · subst ha
      simp only [Function.update_self, Option.some.injEq, Prod.mk.injEq] at hj
      exact hj.2 ▸ ⟨hr, by simp [hl]⟩
    · rw [Function.update_of_ne ha] at hj
      exact h.conns a j v hj

/-- One connection takes a step. -/
theorem Inv.connStep (h : s.Inv) (href : ℕ) (a : World.Act) :
    (∃ s', s.connStep href a = .ok s' ∧ s'.Inv) ∨
      ∃ abort, s.connStep href a = .error (.conn href (.library abort)) := by
  cases hh : s.handlers href with
  | none => exact .inl ⟨s, by simp [AsyncServer.connStep, hh], h⟩
  | some kw =>
    obtain ⟨k, w⟩ := kw
    obtain ⟨hr, hl⟩ := h.conns href k w hh
    cases hs : w.step a with
    | error f =>
      obtain ⟨abort, rfl⟩ := World.library_of_step_error hr.sound hs
      exact .inr ⟨abort, by simp [AsyncServer.connStep, hh, hs, inConn]⟩
    | ok w' =>
      have hr' := reachable_of_step hr hs
      have hcall : s.connStep href a =
          if w.life = .open ∧ w'.life = .freed then
            ({ s with handlers := Function.update s.handlers href (some (k, w')) } :
              AsyncServer L).onHandlerCompletionCb href
          else .ok { s with handlers := Function.update s.handlers href (some (k, w')) } := by
        simp only [AsyncServer.connStep, hh, hs, inConn, Except.ok_bind, Except.pure_eq_ok]
      rw [hcall]
      by_cases hfreed : w.life = .freed
      · -- nothing happens to a connection that was freed
        have hsame : w' = w := by
          have hstay := (hr.sound.stateInvariant.closed hfreed).2 a
          exact (Except.ok.inj (hs.symm.trans hstay))
        rw [if_neg (by simp [hfreed]), hsame, ← hh, Function.update_eq_self]
        exact .inl ⟨s, rfl, h⟩
      · have hopen : w.life = .open := by
          cases hlife : w.life with
          | embryo => exact absurd hlife hl
          | «open» => rfl
          | freed => exact absurd hlife hfreed
        rcases life_of_step hr hl hs with hl' | hl'
        · rw [if_neg (by simp [hl'])]
          exact .inl ⟨_, rfl, h.goes_on hh hopen hr' hl'⟩
        · rw [if_pos ⟨hopen, hl'⟩]
          exact .inl (h.completes hh hopen hr' hl')

/-- **One action** keeps the invariant, or stops at an assertion of a library function in one of the
connections, or at a failed `accept`. -/
theorem Inv.step (h : s.Inv) (a : Act) :
    (∃ s', s.step a = .ok s' ∧ s'.Inv) ∨
      (∃ href abort, s.step a = .error (.conn href (.library abort))) ∨
      s.step a = .error (.server acceptFailed) := by
  have hconn : ∀ (href : ℕ) (b : World.Act), s.step a = s.connStep href b →
      (∃ s', s.step a = .ok s' ∧ s'.Inv) ∨
        (∃ href abort, s.step a = .error (.conn href (.library abort))) ∨
        s.step a = .error (.server acceptFailed) := by
    intro href b heq
    rw [heq]
    rcases h.connStep href b with hok | ⟨abort, herr⟩
    · exact .inl hok
    · exact .inr (.inl ⟨href, abort, herr⟩)
  cases a with
  | listening sock2 errno href heap memory io =>
    simp only [AsyncServer.step]
    split
    · next hv =>
      simp only [onEventListening]
      split
      · split
        · exact .inl ⟨s, rfl, h⟩
        · exact .inr (.inr rfl)
      · cases hs : (World.init L heap memory).step (.accept io) with
        | error f =>
          obtain ⟨abort, rfl⟩ := World.library_of_step_error (World.sound_init L heap memory) hs
          exact .inr (.inl ⟨href, abort, rfl⟩)
        | ok w =>
          have hr : w.Reachable := ⟨heap, memory, [.accept io], by
            rw [Machine.run_cons_ok hs]
            rfl⟩
          obtain ⟨lst, hadd, hinv⟩ := h.accepts hv hr (life_of_accept hs)
          refine .inl ⟨_, ?_, hinv⟩
          simp only [inConn, Except.ok_bind, hadd, own]
          rfl
    · exact .inl ⟨s, rfl, h⟩
  | event href mask => exact hconn href (.event mask) rfl
  | run href io => exact hconn href (.run io) rfl
  | appPost href => exact hconn href .appPost rfl

/-! ### Ownership -/

/-- The handlers that were made and not disposed of are on the list, each once, oldest first; every
other handler was disposed of once. Each connection is in a state that it can get to on its own, and
one that was freed has nothing on the ready list. -/
structure Owned (s : AsyncServer L) : Prop where
  handlers : ∃ hrefs, s.Lists hrefs ∧
    s.handlerList.deallocated.length + hrefs.length = s.created
  connections : ∀ href k w, s.handlers href = some (k, w) →
    w.Reachable ∧ (w.life = .freed → w.readyList = [])

theorem Inv.owned (h : s.Inv) : s.Owned := by
  refine ⟨h.listed, fun href k w hh => ?_⟩
  have hr := (h.conns href k w hh).1
  exact ⟨hr, fun hfreed => (hr.sound.stateInvariant.closed hfreed).1⟩

/-- **The server owns its handlers.** Whatever is accepted, and however the connections are
interleaved, the handlers are owned after every action; and a run ends early only at an assertion
of a library function in a connection, or at a failed `accept`. -/
theorem handlers_owned (L : Llhttp) (as : List Act) :
    Machine.Always step Owned (init L) as ∧
      ∀ e, Machine.run step (init L) as = .error e →
        (∃ href abort, e = .conn href (.library abort)) ∨ e = .server acceptFailed := by
  have hstep : ∀ (s : AsyncServer L) (a : Act) (s' : AsyncServer L), s.Inv →
      s.step a = .ok s' → s'.Inv := by
    intro s a s' h hs
    rcases h.step a with ⟨s₁, h₁, hinv⟩ | ⟨href, abort, herr⟩ | herr
    · cases h₁.symm.trans hs
      exact hinv
    · cases herr.symm.trans hs
    · cases herr.symm.trans hs
  refine ⟨(Machine.always_invariant hstep (init_inv L)).mono fun _ h => h.owned, fun e he => ?_⟩
  by_contra hne
  refine Machine.run_error (E := fun e => ¬ ((∃ href abort, e = .conn href (.library abort)) ∨
    e = .server acceptFailed)) hstep (fun s a e' h he' hE => hE ?_) (init_inv L) he hne
  rcases h.step a with ⟨s₁, h₁, -⟩ | ⟨href, abort, herr⟩ | herr
  · cases h₁.symm.trans he'
  · cases herr.symm.trans he'
    exact .inl ⟨href, abort, rfl⟩
  · cases herr.symm.trans he'
    exact .inr rfl

end AsyncServer

end CHttp
