import Mathlib.Data.List.Basic
import Mathlib.Data.Nat.Notation

/-!
# Automata that go through stages

A deterministic automaton reads symbols until one leads to its dead state; `states` are the states
it is in after each. Its states have ranks, and a transition never lowers the rank, so the text that
was read falls into consecutive parts, one for each rank. The part of rank `r` starts after the
states of lower rank (`before`) and is as long as there are states of that rank (`occ`).

Both change in a simple way with each symbol (`before_concat_of_occ_pos`, `before_concat_self`), so
that a loop that keeps track of where parts start and how long they are can be compared with them.
`Run` describes the steps by a relation instead, to take a text apart by the states that read it.
-/

namespace RankedRun

variable {σ β : Type*}

section States

variable [DecidableEq σ] (next : σ → β → σ) (dead : σ)

/-- The states after each symbol, up to the first symbol that leads to the dead state. -/
def states : σ → List β → List σ
  | _, [] => []
  | s, b :: bs => if next s b = dead then [] else next s b :: states (next s b) bs

variable {next dead} {s : σ} {b : β} {bs : List β}

theorem states_cons_of_dead (h : next s b = dead) : states next dead s (b :: bs) = [] := if_pos h

theorem states_cons (h : next s b ≠ dead) :
    states next dead s (b :: bs) = next s b :: states next dead (next s b) bs := if_neg h

theorem length_states_le : (states next dead s bs).length ≤ bs.length := by
  induction bs generalizing s with
  | nil => exact Nat.le_refl _
  | cons b bs ih =>
    by_cases h : next s b = dead
    · rw [states_cons_of_dead h]
      exact Nat.zero_le _
    · rw [states_cons h]
      exact Nat.succ_le_succ ih

/-- All the symbols are read. -/
def Live (next : σ → β → σ) (dead : σ) (s : σ) (bs : List β) : Prop :=
  (states next dead s bs).length = bs.length

theorem live_nil : Live next dead s [] := rfl

theorem live_cons :
    Live next dead s (b :: bs) ↔ next s b ≠ dead ∧ Live next dead (next s b) bs := by
  by_cases h : next s b = dead
  · simp [Live, states_cons_of_dead h, h]
  · simp [Live, states_cons h, h]

/-- Symbols read one after the other, through given states, by the steps of a relation. -/
inductive Run (R : β → σ → σ → Prop) : σ → List β → List σ → Prop
  | nil (s : σ) : Run R s [] []
  | cons {s s' : σ} {b : β} {bs : List β} {ss : List σ} (hstep : R b s s') (hrun : Run R s' bs ss) :
      Run R s (b :: bs) (s' :: ss)

/-- What an automaton reads, its steps described by a relation. -/
theorem Live.run {R : β → σ → σ → Prop} (hR : ∀ s b, next s b ≠ dead → R b s (next s b))
    (h : Live next dead s bs) : Run R s bs (states next dead s bs) := by
  induction bs generalizing s with
  | nil => exact Run.nil s
  | cons b bs ih =>
    obtain ⟨hb, hbs⟩ := live_cons.mp h
    rw [states_cons hb]
    exact Run.cons (hR s b hb) (ih hbs)

end States

section Counting

variable (rank : σ → ℕ)

/-- How many states have a lower rank. -/
def before (ss : List σ) (r : ℕ) : ℕ := ss.countP fun s => rank s < r

/-- How many states have the rank. -/
def occ (ss : List σ) (r : ℕ) : ℕ := ss.countP fun s => rank s = r

variable {rank} {ss : List σ} {s : σ} {r : ℕ}

@[simp]
theorem occ_nil : occ rank [] r = 0 := rfl

@[simp]
theorem before_nil : before rank [] r = 0 := rfl

@[simp]
theorem occ_append (ss ss' : List σ) :
    occ rank (ss ++ ss') r = occ rank ss r + occ rank ss' r := List.countP_append

@[simp]
theorem before_append (ss ss' : List σ) :
    before rank (ss ++ ss') r = before rank ss r + before rank ss' r := List.countP_append

@[simp]
theorem occ_cons : occ rank (s :: ss) r = occ rank ss r + if rank s = r then 1 else 0 := by
  simp [occ, List.countP_cons]

@[simp]
theorem before_cons :
    before rank (s :: ss) r = before rank ss r + if rank s < r then 1 else 0 := by
  simp [before, List.countP_cons]

/-- A stretch of states of one rank. -/
theorem occ_of_forall {q : ℕ} (h : ∀ s ∈ ss, rank s = q) :
    occ rank ss r = if q = r then ss.length else 0 := by
  induction ss with
  | nil => simp
  | cons s ss ih =>
    obtain ⟨hs, hss⟩ := List.forall_mem_cons.mp h
    rw [occ_cons, ih hss, hs]
    split <;> rfl

theorem before_of_forall {q : ℕ} (h : ∀ s ∈ ss, rank s = q) :
    before rank ss r = if q < r then ss.length else 0 := by
  induction ss with
  | nil => simp
  | cons s ss ih =>
    obtain ⟨hs, hss⟩ := List.forall_mem_cons.mp h
    rw [before_cons, ih hss, hs]
    split <;> rfl

@[simp]
theorem occ_replicate (n : ℕ) (s : σ) :
    occ rank (List.replicate n s) r = if rank s = r then n else 0 := by
  rw [occ_of_forall fun t ht => congrArg rank (List.eq_of_mem_replicate ht), List.length_replicate]

@[simp]
theorem before_replicate (n : ℕ) (s : σ) :
    before rank (List.replicate n s) r = if rank s < r then n else 0 := by
  rw [before_of_forall fun t ht => congrArg rank (List.eq_of_mem_replicate ht),
    List.length_replicate]

/-- The next part starts where one ends. -/
theorem before_succ : before rank ss (r + 1) = before rank ss r + occ rank ss r := by
  induction ss with
  | nil => rfl
  | cons s ss ih =>
    rw [before_cons, before_cons, occ_cons, ih]
    split_ifs <;> omega

theorem before_mono {r' : ℕ} (h : r ≤ r') : before rank ss r ≤ before rank ss r' := by
  refine List.countP_mono_left fun s _ hs => ?_
  simp only [decide_eq_true_eq] at hs ⊢
  omega

theorem before_le_length : before rank ss r ≤ ss.length := List.countP_le_length

/-- A part ends within what was read. -/
theorem before_add_occ_le : before rank ss r + occ rank ss r ≤ ss.length := by
  rw [← before_succ]
  exact before_le_length

theorem before_eq_length (h : ∀ s ∈ ss, rank s < r) : before rank ss r = ss.length := by
  rw [before, List.countP_eq_length]
  simpa using h

theorem occ_eq_zero_iff : occ rank ss r = 0 ↔ ∀ s ∈ ss, rank s ≠ r := by
  simp [occ, List.countP_eq_zero]

theorem before_eq_zero_iff : before rank ss r = 0 ↔ ∀ s ∈ ss, r ≤ rank s := by
  simp [before, List.countP_eq_zero]

theorem occ_pos_iff : 0 < occ rank ss r ↔ ∃ s ∈ ss, rank s = r := by
  simp [occ, List.countP_pos_iff]

/-- A part that has started stays where it is. -/
theorem before_concat_of_occ_pos (hle : ∀ t ∈ ss, rank t ≤ rank s) (hpos : 0 < occ rank ss r) :
    before rank (ss ++ [s]) r = before rank ss r := by
  obtain ⟨t, ht, htr⟩ := occ_pos_iff.mp hpos
  have hlt : ¬ rank s < r := by
    have := hle t ht
    omega
  simp [hlt]

/-- The first symbol of a part. -/
theorem before_concat_self (hle : ∀ t ∈ ss, rank t ≤ rank s) (hzero : occ rank ss (rank s) = 0) :
    before rank (ss ++ [s]) (rank s) = ss.length := by
  have hlt : ∀ t ∈ ss, rank t < rank s := fun t ht =>
    Nat.lt_of_le_of_ne (hle t ht) (occ_eq_zero_iff.mp hzero t ht)
  rw [before_append, before_eq_length hlt]
  simp

end Counting

/-! ### Runs part by part -/

section Parts

/-- A transition that does not lead to the dead state. -/
def Moves (next : σ → β → σ) (dead : σ) (b : β) (s s' : σ) : Prop := next s b = s' ∧ s' ≠ dead

instance [DecidableEq σ] (next : σ → β → σ) (dead : σ) (b : β) (s s' : σ) :
    Decidable (Moves next dead b s s') := inferInstanceAs (Decidable (_ ∧ _))

variable {R : β → σ → σ → Prop} {s t : σ} {b : β} {bs xs ys : List β} {ss ts : List σ}

theorem run_nil_iff : Run R s ([] : List β) [] ↔ True := iff_true_intro (Run.nil s)

theorem run_cons_iff : Run R s (b :: bs) (t :: ss) ↔ R b s t ∧ Run R t bs ss := by
  constructor
  · intro h
    cases h with
    | cons hstep hrun => exact ⟨hstep, hrun⟩
  · rintro ⟨hstep, hrun⟩
    exact .cons hstep hrun

theorem Run.length_eq (h : Run R s bs ss) : ss.length = bs.length := by
  induction h with
  | nil => rfl
  | cons _ _ ih => exact congrArg (· + 1) ih

/-- A text in two parts is read in two parts, the second from where the first ends. -/
theorem run_append_iff (hlen : ss.length = xs.length) :
    Run R s (xs ++ ys) (ss ++ ts) ↔ Run R s xs ss ∧ Run R (ss.getLastD s) ys ts := by
  induction xs generalizing s ss with
  | nil =>
    obtain rfl : ss = [] := List.length_eq_zero_iff.mp hlen
    simp [run_nil_iff]
  | cons x xs ih =>
    cases ss with
    | nil => cases hlen
    | cons t ss =>
      rw [List.cons_append, List.cons_append, run_cons_iff, run_cons_iff, List.getLastD_cons,
        ih (Nat.succ.inj hlen), and_assoc]

/-- A part that is read in one state. -/
theorem run_replicate_iff {P : β → Prop} (hP : ∀ b, R b s s ↔ P b) :
    Run R s xs (List.replicate xs.length s) ↔ ∀ b ∈ xs, P b := by
  induction xs with
  | nil => simp [run_nil_iff]
  | cons x xs ih =>
    rw [List.length_cons, List.replicate_succ, run_cons_iff, ih, hP, List.forall_mem_cons]

/-- A part that is read in one state, which its first symbol leads to. -/
theorem run_cons_replicate_iff {p : Prop} {P : β → Prop} (hp : R b s t ↔ p)
    (hP : ∀ b, R b t t ↔ P b) :
    Run R s (b :: xs) (List.replicate (b :: xs).length t) ↔ p ∧ ∀ b ∈ xs, P b := by
  rw [List.length_cons, List.replicate_succ, run_cons_iff, run_replicate_iff hP, hp]

@[simp]
theorem getLastD_replicate_self (n : ℕ) (s : σ) : (List.replicate n s).getLastD s = s := by
  induction n with
  | zero => rfl
  | succ n ih => rw [List.replicate_succ, List.getLastD_cons, ih]

theorem getLastD_replicate_cons (b : β) (bs : List β) (s t : σ) :
    (List.replicate (b :: bs).length s).getLastD t = s := by
  rw [List.length_cons, List.replicate_succ, List.getLastD_cons, getLastD_replicate_self]

theorem getLastD_append (ss ts : List σ) (s : σ) :
    (ss ++ ts).getLastD s = ts.getLastD (ss.getLastD s) := by
  induction ss generalizing s with
  | nil => rfl
  | cons t ss ih => rw [List.cons_append, List.getLastD_cons, ih, List.getLastD_cons]

/-- What an automaton does is the one run of its transitions. -/
theorem run_moves_iff [DecidableEq σ] {next : σ → β → σ} {dead : σ} :
    Run (Moves next dead) s bs ss ↔ Live next dead s bs ∧ states next dead s bs = ss := by
  induction bs generalizing s ss with
  | nil =>
    constructor
    · intro h
      cases h
      exact ⟨live_nil, rfl⟩
    · rintro ⟨-, rfl⟩
      exact .nil s
  | cons b bs ih =>
    constructor
    · intro h
      cases h with
      | cons hstep hrun =>
        obtain ⟨rfl, hne⟩ := hstep
        obtain ⟨hlive, rfl⟩ := ih.mp hrun
        exact ⟨live_cons.mpr ⟨hne, hlive⟩, states_cons hne⟩
    · rintro ⟨hlive, rfl⟩
      obtain ⟨hne, hlive⟩ := live_cons.mp hlive
      rw [states_cons hne]
      exact .cons ⟨rfl, hne⟩ (ih.mpr ⟨hlive, rfl⟩)

end Parts

end RankedRun
