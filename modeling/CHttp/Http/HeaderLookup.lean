import CHttp.Common.Cbuffer
import CHttp.Common.LinkedList
import CHttp.ForMathlib.Machine
import CHttp.Http.ContentLength
import Mathlib.Data.List.Forall2

/-!
# Looking up and removing headers

`header_list.c` over `list.c`: a header list is a doubly linked list of pairs, and `HdrList_find`
and `HdrList_remove` walk along it with an iterator. Labels are put in upper case when a pair is
made, keys when they are looked for, so that a label is found under a key exactly if they are equal
up to the case of ASCII letters; `EqIgnoringCase` says that without upper-casing anything.
-/

namespace CHttp

open DoublyLinked

/-! ### Letter case -/

/-- The same byte, or a small letter and its capital. -/
def SameLetter (a b : UInt8) : Prop :=
  a = b ∨ (97 ≤ a ∧ a ≤ 122 ∧ b = a - 32) ∨ (97 ≤ b ∧ b ≤ 122 ∧ a = b - 32)

/-- Equal up to the case of ASCII letters. -/
def EqIgnoringCase (s t : List UInt8) : Prop := List.Forall₂ SameLetter s t

private theorem toUpper_eq_iff {a b : UInt8} : toUpper a = toUpper b ↔ SameLetter a b := by
  unfold toUpper SameLetter
  by_cases ha : 97 ≤ a ∧ a ≤ 122
  · by_cases hb : 97 ≤ b ∧ b ≤ 122
    · rw [if_pos ha, if_pos hb]
      grind
    · rw [if_pos ha, if_neg hb]
      grind
  · by_cases hb : 97 ≤ b ∧ b ≤ 122
    · rw [if_neg ha, if_pos hb]
      grind
    · rw [if_neg ha, if_neg hb]
      grind

private theorem map_toUpper_eq_iff {s t : List UInt8} :
    s.map toUpper = t.map toUpper ↔ EqIgnoringCase s t := by
  have hletter : (fun a b => toUpper a = toUpper b) = SameLetter := by
    funext a b
    exact propext toUpper_eq_iff
  rw [← List.forall₂_eq_eq_eq, List.forall₂_map_left_iff, List.forall₂_map_right_iff, hletter]
  rfl

/-- The label of an entry is a key, up to letter case. Both are C strings. -/
def KVPair.Labelled (kvp : KVPair) (key : List UInt8) : Prop :=
  EqIgnoringCase (cString kvp.label) (cString key)

/-- Two keys that are equal up to letter case are put in upper case alike. -/
theorem makeUpper_eq_iff {key key' : List UInt8} :
    makeUpper key = makeUpper key' ↔ EqIgnoringCase (cString key) (cString key') :=
  map_toUpper_eq_iff

/-- The comparison of `HdrList_find_iter`, for a label in upper case. -/
theorem KVPair.name_eq_iff {kvp : KVPair} (h : kvp.label.map toUpper = kvp.label)
    (key : List UInt8) : kvp.name = makeUpper key ↔ kvp.Labelled key := by
  have hname : kvp.name = makeUpper kvp.label := by
    rw [← cString_map_toUpper, h]
    rfl
  rw [hname, makeUpper_eq_iff]
  rfl

/-! ### Header lists in memory -/

/-- `HdrListRef`. -/
abbrev HdrListRef := LinkedList KVPair

namespace HdrListRef

/-- `HdrList_new`. -/
def new : HdrListRef := LinkedList.new .clears

/-- `HdrList_add_back`. -/
def addBack (lref : HdrListRef) (item : KVPair) : Except Abort HdrListRef :=
  LinkedList.addBack lref (some item)

/-- `HdrList_add_front`. -/
def addFront (lref : HdrListRef) (item : KVPair) : Except Abort HdrListRef :=
  LinkedList.addFront lref (some item)

/-- `HdrList_add_cbuf`. -/
def addCbuf (this : HdrListRef) (key value : Cbuffer) : Except Abort HdrListRef :=
  this.addBack (KVPair.new key.data value.data)

/-- `HdrList_add_line`. It adds to the front. -/
def addLine (this : HdrListRef) (label value : List UInt8) : Except Abort HdrListRef :=
  this.addFront (KVPair.new label value)

/-- `HdrList_add_cstr`. -/
def addCstr (this : HdrListRef) (label value : List UInt8) : Except Abort HdrListRef :=
  this.addBack (KVPair.new (cString label) (cString value))

/-- `HdrList_add_arr`. -/
def addArr (this : HdrListRef) (ar : List (List UInt8 × List UInt8)) : Except Abort HdrListRef :=
  ar.foldlM (fun this row => this.addCstr row.1 row.2) this

/-- The loop of `HdrList_find_iter`. -/
def findIterLoop (hlref : HdrListRef) (fixedKey : List UInt8) :
    ℕ → Option ℕ → Except Abort (Option ℕ)
  | 0, _ => .error ⟨"HdrList_find_iter", "the loop is still running"⟩
  | _ + 1, none => .ok none
  | fuel + 1, some iter => do
    match ← hlref.itrUnpack (some iter) with
    | none => .error ⟨"KVPair_label", "NULL is dereferenced"⟩
    | some hlr =>
      if cString hlr.label = fixedKey then return some iter
      else do
        let iter ← hlref.itrNext (some iter)
        hlref.findIterLoop fixedKey fuel iter

/-- `HdrList_find_iter`. The loop is given as many turns as there are nodes, and one to see the
end. -/
def findIter (hlref : HdrListRef) (key : List UInt8) : Except Abort (Option ℕ) :=
  hlref.findIterLoop (makeUpper key) (hlref.size + 1) hlref.iterator

/-- `HdrList_find`. -/
def find (hlref : HdrListRef) (key : List UInt8) : Except Abort (Option KVPair) := do
  match ← hlref.findIter key with
  | none => return none
  | some iter => hlref.itrUnpack (some iter)

/-- `HdrList_remove`. -/
def remove (hlref : HdrListRef) (key : List UInt8) : Except Abort HdrListRef := do
  match ← hlref.findIter key with
  | none => return hlref
  | some iter => hlref.itrRemove (some iter)

/-- The calls that build a header list. Items are made by `KVPair_new`. -/
inductive Op
  | addBack (label value : List UInt8)
  | addFront (label value : List UInt8)
  | addCstr (label value : List UInt8)
  | addCbuf (key value : Cbuffer)
  | addLine (label value : List UInt8)
  | addArr (ar : List (List UInt8 × List UInt8))
  | remove (key : List UInt8)

/-- One call. -/
def step (this : HdrListRef) : Op → Except Abort HdrListRef
  | .addBack label value => this.addBack (KVPair.new label value)
  | .addFront label value => this.addFront (KVPair.new label value)
  | .addCstr label value => this.addCstr label value
  | .addCbuf key value => this.addCbuf key value
  | .addLine label value => this.addLine label value
  | .addArr ar => this.addArr ar
  | .remove key => this.remove key

/-! ### What is in the list -/

/-- The node of a header: its address and its item. -/
def nodeOf (x : ℕ × KVPair) : ℕ × Option KVPair := (x.1, some x.2)

/-- The list in memory has these headers, in this order. -/
def Lists (hlref : HdrListRef) (hdrs : HdrList) : Prop :=
  ∃ xs : List (ℕ × KVPair), hlref.Represents (xs.map nodeOf) ∧ xs.map Prod.snd = hdrs

/-- Labels are in upper case. -/
def Upper (hdrs : HdrList) : Prop := ∀ kvp ∈ hdrs, kvp.label.map toUpper = kvp.label

/-- The same calls on a list of headers as a value. -/
def apply (hdrs : HdrList) : Op → HdrList
  | .addBack label value => hdrs.addBack (KVPair.new label value)
  | .addFront label value => KVPair.new label value :: hdrs
  | .addCstr label value => hdrs.addCstr label value
  | .addCbuf key value => hdrs.addBack (KVPair.new key.data value.data)
  | .addLine label value => KVPair.new label value :: hdrs
  | .addArr ar => hdrs.addArr ar
  | .remove key => hdrs.eraseP fun kvp => kvp.name = makeUpper key

variable {hlref : HdrListRef} {hdrs : HdrList} {xs pre : List (ℕ × KVPair)}

private theorem new_lists : new.Lists [] := ⟨[], LinkedList.new_represents .clears, rfl⟩

theorem Lists.size_eq (h : hlref.Lists hdrs) : hlref.size = hdrs.length := by
  obtain ⟨xs, hxs, rfl⟩ := h
  rw [LinkedList.size, hxs.count, List.length_map, List.length_map]

theorem Lists.addBack (h : hlref.Lists hdrs) (item : KVPair) :
    ∃ t : HdrListRef, hlref.addBack item = .ok t ∧ t.Lists (hdrs.addBack item) := by
  obtain ⟨xs, hxs, rfl⟩ := h
  obtain ⟨t, ht, hrep⟩ := hxs.addBack (some item)
  refine ⟨t, ht, xs ++ [(hlref.free, item)], ?_, List.map_append⟩
  rw [List.map_append]
  exact hrep

theorem Lists.addFront (h : hlref.Lists hdrs) (item : KVPair) :
    ∃ t : HdrListRef, hlref.addFront item = .ok t ∧ t.Lists (item :: hdrs) := by
  obtain ⟨xs, hxs, rfl⟩ := h
  obtain ⟨t, ht, hrep⟩ := hxs.addFront (some item)
  exact ⟨t, ht, (hlref.free, item) :: xs, hrep, rfl⟩

theorem Lists.addArr (h : hlref.Lists hdrs) (ar : List (List UInt8 × List UInt8)) :
    ∃ t : HdrListRef, hlref.addArr ar = .ok t ∧ t.Lists (hdrs.addArr ar) := by
  induction ar generalizing hlref hdrs with
  | nil => exact ⟨hlref, rfl, h⟩
  | cons row ar ih =>
    obtain ⟨t, ht, hlists⟩ := h.addBack (KVPair.new (cString row.1) (cString row.2))
    have hstep : hlref.addArr (row :: ar) = HdrListRef.addArr t ar := by
      rw [HdrListRef.addArr, List.foldlM_cons, addCstr, ht]
      rfl
    rw [hstep]
    exact ih hlists

/-- **The loop of `HdrList_find_iter`.** From a node on it finds the first one whose label is the
key. -/
theorem findIterLoop_eq (h : hlref.Represents ((pre ++ xs).map nodeOf)) (fixedKey : List UInt8)
    {fuel : ℕ} (hfuel : xs.length < fuel) :
    hlref.findIterLoop fixedKey fuel (enter (xs.map nodeOf) none) =
      .ok ((xs.find? fun x => cString x.2.label = fixedKey).map Prod.fst) := by
  induction xs generalizing pre fuel with
  | nil =>
    cases fuel with
    | zero => cases hfuel
    | succ fuel => rfl
  | cons x xs ih =>
    cases fuel with
    | zero => cases hfuel
    | succ fuel =>
      have hnode : hlref.Represents (pre.map nodeOf ++ nodeOf x :: xs.map nodeOf) := by
        rw [← List.map_cons, ← List.map_append]
        exact h
      have hrest : hlref.Represents ((pre ++ [x] ++ xs).map nodeOf) := by
        rw [List.append_assoc]
        exact h
      have hunpack : hlref.itrUnpack (some x.1) = .ok (some x.2) := hnode.itrUnpack
      have hnext : hlref.itrNext (some x.1) = .ok (enter (xs.map nodeOf) none) := hnode.itrNext
      change hlref.findIterLoop fixedKey (fuel + 1) (some x.1) = _
      rw [findIterLoop, hunpack, Except.ok_bind]
      by_cases hlabel : cString x.2.label = fixedKey
      · rw [List.find?_cons_of_pos (by simpa using hlabel)]
        exact if_pos hlabel
      · rw [List.find?_cons_of_neg (by simpa using hlabel)]
        simp only [if_neg hlabel, hnext, Except.ok_bind]
        exact ih hrest (Nat.lt_of_succ_lt_succ hfuel)

private theorem findIter_eq (h : hlref.Represents (xs.map nodeOf)) (key : List UInt8) :
    hlref.findIter key =
      .ok ((xs.find? fun x => cString x.2.label = makeUpper key).map Prod.fst) := by
  have hfuel : xs.length < hlref.size + 1 := by
    rw [LinkedList.size, h.count, List.length_map]
    exact Nat.lt_succ_self _
  have hiter : hlref.iterator = enter (xs.map nodeOf) none := h.head
  have hrep : hlref.Represents (([] ++ xs).map nodeOf) := h
  rw [findIter, hiter]
  exact findIterLoop_eq hrep (makeUpper key) hfuel

/-- The outcomes of looking for a key and of removing it: the first entry with that label is found,
and removing it leaves the others in their order; or there is none, and nothing changes. -/
inductive Looked (hlref : HdrListRef) (hdrs : HdrList) (key : List UInt8) : Prop
  | found {before after : HdrList} {kvp : KVPair} {t : HdrListRef}
      (split : hdrs = before ++ kvp :: after) (first : ∀ k ∈ before, ¬ k.Labelled key)
      (labelled : kvp.Labelled key) (find : hlref.find key = .ok (some kvp))
      (remove : hlref.remove key = .ok t) (lists : t.Lists (before ++ after))
      (size : t.size + 1 = hlref.size)
  | absent (unlabelled : ∀ k ∈ hdrs, ¬ k.Labelled key) (find : hlref.find key = .ok none)
      (remove : hlref.remove key = .ok hlref)

private theorem Lists.looked (h : hlref.Lists hdrs) (hup : Upper hdrs) (key : List UInt8) :
    Looked hlref hdrs key := by
  obtain ⟨xs, hxs, rfl⟩ := h
  have hiter := findIter_eq hxs key
  have hlabel : ∀ x ∈ xs, cString x.2.label = makeUpper key ↔ x.2.Labelled key :=
    fun x hx => KVPair.name_eq_iff (hup x.2 (List.mem_map_of_mem hx)) key
  cases hfind : xs.find? fun x => cString x.2.label = makeUpper key with
  | none =>
    rw [hfind] at hiter
    refine .absent (fun k hk => ?_) ?_ ?_
    · obtain ⟨x, hx, rfl⟩ := List.mem_map.mp hk
      have hnot := List.find?_eq_none.mp hfind x hx
      rw [← hlabel x hx]
      simpa using hnot
    · rw [HdrListRef.find, hiter]
      rfl
    · rw [HdrListRef.remove, hiter]
      rfl
  | some x =>
    rw [hfind] at hiter
    obtain ⟨hx, ys, zs, rfl, hys⟩ := List.find?_eq_some_iff_append.mp hfind
    have hnode : hlref.Represents (ys.map nodeOf ++ nodeOf x :: zs.map nodeOf) := by
      rw [← List.map_cons, ← List.map_append]
      exact hxs
    have hunpack : hlref.itrUnpack (some x.1) = .ok (some x.2) := hnode.itrUnpack
    obtain ⟨t, ht, hrep⟩ := hnode.itrRemove
    rw [← List.map_append] at hrep
    have hlists : HdrListRef.Lists t ((ys ++ zs).map Prod.snd) := ⟨ys ++ zs, hrep, rfl⟩
    refine .found (t := t) List.map_append (fun k hk => ?_)
      ((hlabel x (by simp)).mp (of_decide_eq_true hx)) ?_ ?_ (by rwa [List.map_append] at hlists) ?_
    · obtain ⟨y, hy, rfl⟩ := List.mem_map.mp hk
      rw [← hlabel y (List.mem_append_left _ hy)]
      simpa using hys y hy
    · rw [HdrListRef.find, hiter]
      exact hunpack
    · rw [HdrListRef.remove, hiter]
      exact ht
    · rw [hlists.size_eq, LinkedList.size, hxs.count]
      simp [Nat.add_assoc]

/-! ### Runs -/

theorem Upper.append (h : Upper hdrs) (label value : List UInt8) :
    Upper (hdrs ++ [KVPair.new label value]) :=
  List.forall_mem_append.mpr ⟨h, List.forall_mem_singleton.mpr (KVPair.label_new label value)⟩

theorem Upper.addArr (h : Upper hdrs) (ar : List (List UInt8 × List UInt8)) :
    Upper (hdrs.addArr ar) := by
  induction ar generalizing hdrs with
  | nil => exact h
  | cons row ar ih => exact ih (h.append _ _)

/-- Labels stay in upper case. -/
theorem Upper.apply (h : Upper hdrs) (op : Op) : Upper (HdrListRef.apply hdrs op) := by
  cases op with
  | addBack label value => exact h.append label value
  | addFront label value => exact List.forall_mem_cons.mpr ⟨KVPair.label_new label value, h⟩
  | addCstr label value => exact h.append _ _
  | addCbuf key value => exact h.append _ _
  | addLine label value => exact List.forall_mem_cons.mpr ⟨KVPair.label_new label value, h⟩
  | addArr ar => exact h.addArr ar
  | remove key => exact fun kvp hkvp => h kvp (List.mem_of_mem_eraseP hkvp)

/-- What is left after removing a key. -/
theorem Looked.exists_remove {key : List UInt8} (h : Looked hlref hdrs key) (hup : Upper hdrs)
    (hlists : hlref.Lists hdrs) :
    ∃ t, hlref.remove key = .ok t ∧ t.Lists (hdrs.eraseP fun kvp => kvp.name = makeUpper key) := by
  cases h with
  | @found before after kvp t split first labelled find remove lists size =>
    subst split
    have hname : ∀ k ∈ before ++ kvp :: after, k.name = makeUpper key ↔ k.Labelled key :=
      fun k hk => KVPair.name_eq_iff (hup k hk) key
    refine ⟨t, remove, ?_⟩
    rw [List.eraseP_append_right _ fun k hk => ?_, List.eraseP_cons_of_pos ?_]
    · exact lists
    · simpa using (hname kvp (by simp)).mpr labelled
    · simpa using mt (hname k (List.mem_append_left _ hk)).mp (first k hk)
  | absent unlabelled find remove =>
    refine ⟨hlref, remove, ?_⟩
    rw [List.eraseP_of_forall_not fun k hk => ?_]
    · exact hlists
    · simpa using mt (KVPair.name_eq_iff (hup k hk) key).mp (unlabelled k hk)

/-- **One call** does to the list in memory what it does to the list of headers. -/
theorem Lists.step (h : hlref.Lists hdrs) (hup : Upper hdrs) (op : Op) :
    ∃ t : HdrListRef, hlref.step op = .ok t ∧ t.Lists (HdrListRef.apply hdrs op) := by
  cases op with
  | addBack label value => exact h.addBack _
  | addFront label value => exact h.addFront _
  | addCstr label value => exact h.addBack _
  | addCbuf key value => exact h.addBack _
  | addLine label value => exact h.addFront _
  | addArr ar => exact h.addArr ar
  | remove key => exact (h.looked hup key).exists_remove hup h

/-- A sequence of calls goes through. -/
theorem Lists.run (h : hlref.Lists hdrs) (hup : Upper hdrs) (ops : List Op) :
    ∃ t : HdrListRef, Machine.run HdrListRef.step hlref ops = .ok t ∧
      t.Lists (ops.foldl HdrListRef.apply hdrs) ∧ Upper (ops.foldl HdrListRef.apply hdrs) := by
  induction ops generalizing hlref hdrs with
  | nil => exact ⟨hlref, rfl, h, hup⟩
  | cons op ops ih =>
    obtain ⟨t, ht, hlists⟩ := h.step hup op
    rw [Machine.run_cons_ok ht]
    exact ih hlists (hup.apply op)

/-- **Lookup and removal.** After any sequence of calls the list in memory has the headers that the
calls put there, and for every key: `HdrList_find` returns the first entry whose label is the key up
to letter case, and `HdrList_remove` deletes that entry, keeps the others in their order and makes
the size one less; or there is no such entry, `HdrList_find` returns `NULL` and `HdrList_remove`
changes nothing. Keys that differ only in case are found alike. -/
theorem lookup_and_removal (ops : List Op) :
    ∃ t : HdrListRef, Machine.run step new ops = .ok t ∧
      t.Lists (ops.foldl HdrListRef.apply []) ∧
      t.size = (ops.foldl HdrListRef.apply []).length ∧
      (∀ key, Looked t (ops.foldl HdrListRef.apply []) key) ∧
      ∀ key key', EqIgnoringCase (cString key) (cString key') → t.find key = t.find key' := by
  obtain ⟨t, ht, hlists, hup⟩ := new_lists.run nofun ops
  refine ⟨t, ht, hlists, hlists.size_eq, hlists.looked hup, fun key key' hcase => ?_⟩
  rw [find, findIter, makeUpper_eq_iff.mpr hcase]
  rfl

end HdrListRef

end CHttp
