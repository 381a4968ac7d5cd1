import CHttp.ForMathlib.Except
import Mathlib.Data.List.Basic
import Mathlib.Data.Nat.Find
import Mathlib.Order.RelClasses

/-!
# Machines that may abort

A machine is a step function `σ → α → Except ε σ`: from a state and an action (an event,
the result of a system call) it reaches a next state or aborts. Everything the environment
decides is in the action, so a statement about every list of actions is a statement about
every interleaving.

Two predicates describe a run. `Along P` says that `P` holds of each state and the action
taken in it; it is how a condition on inputs is put. `Always Q` says that `Q` holds of every
state reached. `always_iff_along` is the rule for an exact condition: when one step keeps
`Q` exactly if `P` holds of it, a whole run keeps `Q` exactly if all its steps meet `P`.

An infinite run is a `Path`. What happens in the end is proved with `exists_not_of_helpful`: a
variant, and for each state the action that decreases it; or with `Path.exists_goal`, where every
action that does something decreases the variant.
-/

namespace Machine

variable {σ α ε : Type*} (step : σ → α → Except ε σ)

/-- Run a list of actions, stopping at the first abort. -/
def run : σ → List α → Except ε σ
  | s, [] => .ok s
  | s, a :: as =>
    match step s a with
    | .ok s' => run s' as
    | .error e => .error e

/-- What the steps of a run put out, one after another. -/
def outputs {β : Type*} (out : σ → α → List β) : σ → List α → List β
  | _, [] => []
  | s, a :: as =>
    out s a ++ match step s a with
      | .ok s' => outputs out s' as
      | .error _ => []

/-- `P` holds of every step the run takes. -/
def Along (P : σ → α → Prop) : σ → List α → Prop
  | _, [] => True
  | s, a :: as =>
    P s a ∧ match step s a with
      | .ok s' => Along P s' as
      | .error _ => True

/-- `Q` holds of every state the run reaches, its first included. -/
def Always (Q : σ → Prop) : σ → List α → Prop
  | s, [] => Q s
  | s, a :: as =>
    Q s ∧ match step s a with
      | .ok s' => Always Q s' as
      | .error _ => True

variable {step} {s s' : σ} {a : α} {as bs : List α}

@[simp]
theorem run_nil : run step s [] = .ok s := rfl

theorem run_cons_ok (h : step s a = .ok s') : run step s (a :: as) = run step s' as := by
  simp [run, h]

theorem run_cons_error {e : ε} (h : step s a = .error e) :
    run step s (a :: as) = .error e := by
  simp [run, h]

theorem along_cons_ok {P : σ → α → Prop} (h : step s a = .ok s') :
    Along step P s (a :: as) ↔ P s a ∧ Along step P s' as := by
  simp [Along, h]

/-- A condition that can be tested step by step can be tested along a run. -/
instance decidableAlong {P : σ → α → Prop} [∀ s a, Decidable (P s a)] :
    ∀ s as, Decidable (Along step P s as)
  | _, [] => isTrue trivial
  | s, a :: as =>
    match hs : step s a with
    | .ok s' =>
      have : Decidable (Along step P s' as) := decidableAlong s' as
      decidable_of_iff (P s a ∧ Along step P s' as) (along_cons_ok hs).symm
    | .error _ => decidable_of_iff (P s a) (by simp [Along, hs])

theorem always_cons_ok {Q : σ → Prop} (h : step s a = .ok s') :
    Always step Q s (a :: as) ↔ Q s ∧ Always step Q s' as := by
  simp [Always, h]

/-- A run that ends took its first step. -/
theorem exists_of_run_cons {t : σ} (h : run step s (a :: as) = .ok t) :
    ∃ s', step s a = .ok s' ∧ run step s' as = .ok t := by
  cases hs : step s a with
  | ok s' => exact ⟨s', rfl, by rwa [run_cons_ok hs] at h⟩
  | error e => rw [run_cons_error hs] at h; cases h

/-- Running one list after another. -/
theorem run_append {t : σ} (h : run step s as = .ok t) :
    run step s (as ++ bs) = run step t bs := by
  induction as generalizing s with
  | nil => cases h; rfl
  | cons a as ih =>
    obtain ⟨s', hs, hr⟩ := exists_of_run_cons h
    rw [List.cons_append, run_cons_ok hs, ih hr]

/-- **Invariant rule.** What every step that does not abort preserves holds at the end of
every run that does not abort. -/
theorem run_invariant {Inv : σ → Prop}
    (hstep : ∀ s a s', Inv s → step s a = .ok s' → Inv s') (h0 : Inv s) {t : σ}
    (h : run step s as = .ok t) : Inv t := by
  induction as generalizing s with
  | nil => cases h; exact h0
  | cons a as ih =>
    obtain ⟨s', hs, hr⟩ := exists_of_run_cons h
    exact ih (hstep s a s' h0 hs) hr

/-- **Output rule.** What every step preserves, with what it puts out, holds at the end of a run
with all that was put out. -/
theorem run_outputs {β : Type*} {out : σ → α → List β} {Inv : List β → σ → Prop}
    (hstep : ∀ bs s a s', Inv bs s → step s a = .ok s' → Inv (bs ++ out s a) s') {bs : List β}
    (h0 : Inv bs s) {t : σ} (h : run step s as = .ok t) : Inv (bs ++ outputs step out s as) t := by
  induction as generalizing s bs with
  | nil =>
    cases h
    rwa [outputs, List.append_nil]
  | cons a as ih =>
    obtain ⟨s', hs, hr⟩ := exists_of_run_cons h
    have hrest := ih (hstep bs s a s' h0 hs) hr
    rw [List.append_assoc] at hrest
    rwa [outputs, hs]

/-- **Simulation rule.** If related states take related steps, they have related runs. -/
theorem run_rel {τ : Type*} {step' : τ → α → Except ε τ} {R : σ → τ → Prop}
    (hstep : ∀ s t a, R s t → Except.Rel R (step s a) (step' t a)) {t : τ} (h0 : R s t) :
    Except.Rel R (run step s as) (run step' t as) := by
  induction as generalizing s t with
  | nil => exact .ok h0
  | cons a as ih =>
    have hrel := hstep s t a h0
    cases hs : step s a with
    | ok s' =>
      obtain ⟨t', ht, hR⟩ := hrel.exists_ok_right hs
      rw [run_cons_ok hs, run_cons_ok ht]
      exact ih hR
    | error e =>
      rw [hs] at hrel
      cases ht : step' t a with
      | ok t' =>
        rw [ht] at hrel
        cases hrel
      | error e' =>
        rw [ht] at hrel
        cases hrel
        rw [run_cons_error hs, run_cons_error ht]
        exact .error e

/-- **Abort rule.** If, under an invariant, no step aborts with an error in `E`, no run
does. -/
theorem run_error {Inv : σ → Prop} {E : ε → Prop}
    (hstep : ∀ s a s', Inv s → step s a = .ok s' → Inv s')
    (herr : ∀ s a e, Inv s → step s a = .error e → ¬ E e) (h0 : Inv s) {e : ε}
    (h : run step s as = .error e) : ¬ E e := by
  induction as generalizing s with
  | nil => cases h
  | cons a as ih =>
    cases hs : step s a with
    | ok s' => exact ih (hstep s a s' h0 hs) (by rwa [run_cons_ok hs] at h)
    | error e' =>
      rw [run_cons_error hs] at h
      injection h with h
      exact h ▸ herr s a e' h0 hs

/-- A run that aborts does so in one of its steps, and what every step preserves holds there. -/
theorem exists_step_error {Inv : σ → Prop}
    (hstep : ∀ s a s', Inv s → step s a = .ok s' → Inv s') (h0 : Inv s) {e : ε}
    (h : run step s as = .error e) : ∃ a ∈ as, ∃ t, Inv t ∧ step t a = .error e := by
  induction as generalizing s with
  | nil => cases h
  | cons a as ih =>
    cases hs : step s a with
    | ok s' =>
      rw [run_cons_ok hs] at h
      obtain ⟨b, hb, t, ht⟩ := ih (hstep s a s' h0 hs) h
      exact ⟨b, List.mem_cons_of_mem a hb, t, ht⟩
    | error e' =>
      rw [run_cons_error hs] at h
      cases h
      exact ⟨a, List.mem_cons_self, s, h0, hs⟩

/-- **Conditional invariant rule.** What every step that meets `P` preserves holds of every
state of a run whose steps all meet `P`. -/
theorem always_of_along {Inv : σ → Prop} {P : σ → α → Prop}
    (hstep : ∀ s a s', Inv s → P s a → step s a = .ok s' → Inv s') (h0 : Inv s)
    (h : Along step P s as) : Always step Inv s as := by
  induction as generalizing s with
  | nil => exact h0
  | cons a as ih =>
    cases hs : step s a with
    | ok s' =>
      obtain ⟨hp, hal⟩ := (along_cons_ok hs).mp h
      exact (always_cons_ok hs).mpr ⟨h0, ih (hstep s a s' h0 hp hs) hal⟩
    | error e => simp [Always, hs, h0]

/-- An invariant holds of every state of a run. -/
theorem always_invariant {Inv : σ → Prop}
    (hstep : ∀ s a s', Inv s → step s a = .ok s' → Inv s') (h0 : Inv s) :
    Always step Inv s as := by
  induction as generalizing s with
  | nil => exact h0
  | cons a as ih =>
    cases hs : step s a with
    | ok s' => exact (always_cons_ok hs).mpr ⟨h0, ih (hstep s a s' h0 hs)⟩
    | error e => simp [Always, hs, h0]

/-- **Safety rule.** If from every state of the invariant every step succeeds and keeps it, every
run succeeds, in states of the invariant. -/
theorem run_ok_always {Inv : σ → Prop} (as : List α)
    (hstep : ∀ s a, Inv s → ∃ s', step s a = .ok s' ∧ Inv s') (h0 : Inv s) :
    (∃ t, run step s as = .ok t) ∧ Always step Inv s as := by
  induction as generalizing s with
  | nil => exact ⟨⟨s, rfl⟩, h0⟩
  | cons a as ih =>
    obtain ⟨s', hs, hinv⟩ := hstep s a h0
    rw [run_cons_ok hs, always_cons_ok hs]
    exact ⟨(ih hinv).1, h0, (ih hinv).2⟩

/-- A weaker property holds always as well. -/
theorem Always.mono {Q Q' : σ → Prop} (h : Always step Q s as) (hQ : ∀ s, Q s → Q' s) :
    Always step Q' s as := by
  induction as generalizing s with
  | nil => exact hQ s h
  | cons a as ih =>
    refine ⟨hQ s h.1, ?_⟩
    have htail := h.2
    cases hs : step s a with
    | ok s' =>
      rw [hs] at htail
      exact ih htail
    | error e => trivial

/-- **Conditional abort rule.** If under `Inv` a step that meets `P` aborts only with an error
in `E`, so does a run whose steps all meet `P`. -/
theorem error_of_along {Inv : σ → Prop} {P : σ → α → Prop} {E : ε → Prop}
    (hstep : ∀ s a s', Inv s → P s a → step s a = .ok s' → Inv s')
    (herr : ∀ s a e, Inv s → P s a → step s a = .error e → E e) (h0 : Inv s)
    (hal : Along step P s as) {e : ε} (h : run step s as = .error e) : E e := by
  induction as generalizing s with
  | nil => cases h
  | cons a as ih =>
    cases hs : step s a with
    | ok s' =>
      obtain ⟨hp, hal'⟩ := (along_cons_ok hs).mp hal
      exact ih (hstep s a s' h0 hp hs) hal' (by rwa [run_cons_ok hs] at h)
    | error e' =>
      rw [run_cons_error hs] at h
      injection h with h
      exact h ▸ herr s a e' h0 hal.1 hs

/-- A condition on the actions alone. -/
theorem along_of_forall {P : σ → α → Prop} (h : ∀ a ∈ as, ∀ s, P s a) : Along step P s as := by
  induction as generalizing s with
  | nil => trivial
  | cons a as ih =>
    obtain ⟨ha, has⟩ := List.forall_mem_cons.mp h
    refine ⟨ha s, ?_⟩
    split
    · exact ih has
    · trivial

/-- **Progress rule.** If under `Inv` every step that meets `P` goes through and keeps `Inv`, so
does a run whose steps all meet `P`. -/
theorem run_ok_of_along {Inv : σ → Prop} {P : σ → α → Prop}
    (hstep : ∀ s a s', Inv s → P s a → step s a = .ok s' → Inv s')
    (hok : ∀ s a, Inv s → P s a → ∃ s', step s a = .ok s') (h0 : Inv s)
    (hal : Along step P s as) : ∃ t, run step s as = .ok t := by
  induction as generalizing s with
  | nil => exact ⟨s, rfl⟩
  | cons a as ih =>
    obtain ⟨s', hs⟩ := hok s a h0 hal.1
    obtain ⟨hp, hal'⟩ := (along_cons_ok hs).mp hal
    rw [run_cons_ok hs]
    exact ih (hstep s a s' h0 hp hs) hal'

/-- `Always` covers the first state. -/
theorem Always.head {Q : σ → Prop} (h : Always step Q s as) : Q s := by
  cases as with
  | nil => exact h
  | cons a as => exact h.1

/-- Under an invariant, two step conditions that agree step by step agree along runs. -/
theorem along_congr {Inv : σ → Prop} {P P' : σ → α → Prop}
    (hstep : ∀ s a s', Inv s → step s a = .ok s' → Inv s')
    (hP : ∀ s a, Inv s → (P s a ↔ P' s a)) (h0 : Inv s) :
    Along step P s as ↔ Along step P' s as := by
  induction as generalizing s with
  | nil => exact Iff.rfl
  | cons a as ih =>
    cases hs : step s a with
    | ok s' =>
      rw [along_cons_ok hs, along_cons_ok hs, hP s a h0, ih (hstep s a s' h0 hs)]
    | error e => simp [Along, hs, hP s a h0]

/-- Two conditions met along a run are met together. -/
theorem Along.and {P P' : σ → α → Prop} (h : Along step P s as) (h' : Along step P' s as) :
    Along step (fun s a => P s a ∧ P' s a) s as := by
  induction as generalizing s with
  | nil => trivial
  | cons a as ih =>
    cases hs : step s a with
    | ok s' =>
      obtain ⟨hp, hal⟩ := (along_cons_ok hs).mp h
      obtain ⟨hp', hal'⟩ := (along_cons_ok hs).mp h'
      exact (along_cons_ok hs).mpr ⟨⟨hp, hp'⟩, ih hal hal'⟩
    | error e =>
      have hp : P s a := h.1
      have hp' : P' s a := h'.1
      simp [Along, hs, hp, hp']

/-- **Necessity rule.** If, in runs whose steps meet `F`, a step keeps `Q` and stays clear of the
errors in `E` only when `P` holds of it, then a run that does so all along met `P`. -/
theorem along_of_error_always {Inv Q : σ → Prop} {F P : σ → α → Prop} {E : ε → Prop}
    (hstep : ∀ s a s', Inv s → F s a → step s a = .ok s' → Inv s')
    (hP : ∀ s a s', Inv s → F s a → Q s → step s a = .ok s' → Q s' → P s a)
    (herr : ∀ s a e, Inv s → F s a → Q s → step s a = .error e → ¬ E e → P s a)
    (h0 : Inv s) (hF : Along step F s as) (hr : ∀ e, run step s as = .error e → ¬ E e)
    (hQ : Always step Q s as) : Along step P s as := by
  induction as generalizing s with
  | nil => trivial
  | cons a as ih =>
    cases hs : step s a with
    | ok s' =>
      obtain ⟨hf, hF'⟩ := (along_cons_ok hs).mp hF
      obtain ⟨hq, hQ'⟩ := (always_cons_ok hs).mp hQ
      rw [run_cons_ok hs] at hr
      have hp : P s a := hP s a s' h0 hf hq hs hQ'.head
      exact (along_cons_ok hs).mpr ⟨hp, ih (hstep s a s' h0 hf hs) hF' hr hQ'⟩
    | error e =>
      have hp : P s a := herr s a e h0 hF.1 hQ.head hs (hr e (run_cons_error hs))
      simp [Along, hs, hp]

/-- The necessity rule for a run that does not abort. -/
theorem along_of_always {Inv Q : σ → Prop} {F P : σ → α → Prop} {t : σ}
    (hstep : ∀ s a s', Inv s → F s a → step s a = .ok s' → Inv s')
    (hP : ∀ s a s', Inv s → F s a → Q s → step s a = .ok s' → Q s' → P s a)
    (h0 : Inv s) (hF : Along step F s as) (hr : run step s as = .ok t)
    (hQ : Always step Q s as) : Along step P s as :=
  along_of_error_always (E := fun _ => True) hstep hP
    (fun _ _ _ _ _ _ _ hne => absurd trivial hne) h0 hF (by simp [hr]) hQ

/-- **Exactness rule.** Let `Inv` be an invariant. If from a state with `Q` a step keeps
`Q` exactly when `P` holds of it, then every state of a run has `Q` exactly when every step
of it meets `P`. -/
theorem always_iff_along {Inv Q : σ → Prop} {P : σ → α → Prop}
    (hstep : ∀ s a s', Inv s → step s a = .ok s' → Inv s')
    (hQ : ∀ s a s', Inv s → Q s → step s a = .ok s' → (Q s' ↔ P s a))
    (herr : ∀ s a e, Inv s → Q s → step s a = .error e → P s a)
    (h0 : Inv s) (q0 : Q s) : Always step Q s as ↔ Along step P s as := by
  induction as generalizing s with
  | nil => exact iff_of_true q0 trivial
  | cons a as ih =>
    cases hs : step s a with
    | ok s' =>
      rw [always_cons_ok hs, along_cons_ok hs]
      have hinv := hstep s a s' h0 hs
      constructor
      · rintro ⟨-, hal⟩
        have hq' : Q s' := hal.head
        exact ⟨(hQ s a s' h0 q0 hs).mp hq', (ih hinv hq').mp hal⟩
      · rintro ⟨hp, hal⟩
        have hq' := (hQ s a s' h0 q0 hs).mpr hp
        exact ⟨q0, (ih hinv hq').mpr hal⟩
    | error e => simp [Always, Along, hs, q0, herr s a e h0 q0 hs]

/-- **Exactness rule, with errors, for runs that keep a contract.** Along a run whose steps all meet
`F`: if from a state with `Q` a step keeps `Q`, and stays clear of the errors in `E`, exactly when
`P` holds of it, then a whole run does so exactly when every step of it meets `P`. The invariant is
needed only as long as `Q` holds. -/
theorem error_always_iff_along_within {Inv Q : σ → Prop} {F P : σ → α → Prop} {E : ε → Prop}
    (hstep : ∀ s a s', Inv s → F s a → Q s → step s a = .ok s' → Q s' → Inv s')
    (hQ : ∀ s a s', Inv s → F s a → Q s → step s a = .ok s' → (Q s' ↔ P s a))
    (hE : ∀ s a e, Inv s → F s a → Q s → step s a = .error e → (¬ E e ↔ P s a))
    (h0 : Inv s) (q0 : Q s) (hF : Along step F s as) :
    ((∀ e, run step s as = .error e → ¬ E e) ∧ Always step Q s as) ↔ Along step P s as := by
  induction as generalizing s with
  | nil => exact iff_of_true ⟨by simp, q0⟩ trivial
  | cons a as ih =>
    have hf : F s a := hF.1
    cases hs : step s a with
    | ok s' =>
      have hq := hQ s a s' h0 hf q0 hs
      have hinv := hstep s a s' h0 hf q0 hs
      have hF' := ((along_cons_ok hs).mp hF).2
      rw [run_cons_ok hs, always_cons_ok hs, along_cons_ok hs]
      constructor
      · rintro ⟨hrun, -, hal⟩
        exact ⟨hq.mp hal.head, (ih (hinv hal.head) hal.head hF').mp ⟨hrun, hal⟩⟩
      · rintro ⟨hp, hal⟩
        have hq' := hq.mpr hp
        obtain ⟨hrun, hal'⟩ := (ih (hinv hq') hq' hF').mpr hal
        exact ⟨hrun, q0, hal'⟩
    | error e =>
      have he := hE s a e h0 hf q0 hs
      simp [run_cons_error hs, Always, Along, hs, q0, he]

/-- The same with an invariant of all runs that keep the contract. -/
theorem error_always_iff_along_of {Inv Q : σ → Prop} {F P : σ → α → Prop} {E : ε → Prop}
    (hstep : ∀ s a s', Inv s → F s a → step s a = .ok s' → Inv s')
    (hQ : ∀ s a s', Inv s → F s a → Q s → step s a = .ok s' → (Q s' ↔ P s a))
    (hE : ∀ s a e, Inv s → F s a → Q s → step s a = .error e → (¬ E e ↔ P s a))
    (h0 : Inv s) (q0 : Q s) (hF : Along step F s as) :
    ((∀ e, run step s as = .error e → ¬ E e) ∧ Always step Q s as) ↔ Along step P s as :=
  error_always_iff_along_within (fun s a s' h hf _ hs _ => hstep s a s' h hf hs) hQ hE h0 q0 hF

/-- **Exactness rule for runs that keep a contract.** As `error_always_iff_along_within`, where a
step that aborts meets `P`. -/
theorem always_iff_along_within {Inv Q : σ → Prop} {F P : σ → α → Prop}
    (hstep : ∀ s a s', Inv s → F s a → Q s → step s a = .ok s' → Q s' → Inv s')
    (hQ : ∀ s a s', Inv s → F s a → Q s → step s a = .ok s' → (Q s' ↔ P s a))
    (herr : ∀ s a e, Inv s → F s a → Q s → step s a = .error e → P s a)
    (h0 : Inv s) (q0 : Q s) (hF : Along step F s as) :
    Always step Q s as ↔ Along step P s as := by
  rw [← error_always_iff_along_within (E := fun _ => False) hstep hQ
    (fun s a e h hf hq hs => iff_of_true not_false (herr s a e h hf hq hs)) h0 q0 hF]
  exact (and_iff_right fun _ _ => not_false).symm

/-- **Exactness rule, with errors.** As `always_iff_along`, where besides `P` is what keeps a step
from an error in `E`. -/
theorem error_always_iff_along {Inv Q : σ → Prop} {P : σ → α → Prop} {E : ε → Prop}
    (hstep : ∀ s a s', Inv s → step s a = .ok s' → Inv s')
    (hQ : ∀ s a s', Inv s → Q s → step s a = .ok s' → (Q s' ↔ P s a))
    (hE : ∀ s a e, Inv s → Q s → step s a = .error e → (¬ E e ↔ P s a))
    (h0 : Inv s) (q0 : Q s) :
    ((∀ e, run step s as = .error e → ¬ E e) ∧ Always step Q s as) ↔ Along step P s as :=
  error_always_iff_along_of (F := fun _ _ => True) (fun s a s' h _ => hstep s a s' h)
    (fun s a s' h _ => hQ s a s' h) (fun s a e h _ => hE s a e h) h0 q0
    (along_of_forall fun _ _ _ => trivial)

/-- **Exactness rule, aborts excluded, for runs that keep a contract.** As
`error_always_iff_along_of`, where `P` is also exactly what keeps the step from aborting. -/
theorem run_ok_always_iff_along_of {Inv Q : σ → Prop} {F P : σ → α → Prop}
    (hstep : ∀ s a s', Inv s → F s a → step s a = .ok s' → Inv s')
    (hQ : ∀ s a, Inv s → F s a → Q s → ((∃ s', step s a = .ok s' ∧ Q s') ↔ P s a))
    (h0 : Inv s) (q0 : Q s) (hF : Along step F s as) :
    ((∃ t, run step s as = .ok t) ∧ Always step Q s as) ↔ Along step P s as := by
  have hok : (∃ t, run step s as = .ok t) ↔ ∀ e, run step s as = .error e → ¬ True := by
    cases run step s as with
    | ok t => simp
    | error e => simp
  rw [hok]
  refine error_always_iff_along_of hstep (fun s a s' h hf hq hs => ?_)
    (fun s a e h hf hq hs => ?_) h0 q0 hF
  · rw [← hQ s a h hf hq]
    simp [hs]
  · rw [← hQ s a h hf hq]
    simp [hs]

/-- **Exactness rule, aborts excluded.** As `always_iff_along`, where `P` is also exactly
what keeps the step from aborting. -/
theorem run_ok_always_iff_along {Inv Q : σ → Prop} {P : σ → α → Prop}
    (hstep : ∀ s a s', Inv s → step s a = .ok s' → Inv s')
    (hQ : ∀ s a, Inv s → Q s → ((∃ s', step s a = .ok s' ∧ Q s') ↔ P s a))
    (h0 : Inv s) (q0 : Q s) :
    ((∃ t, run step s as = .ok t) ∧ Always step Q s as) ↔ Along step P s as :=
  run_ok_always_iff_along_of (F := fun _ _ => True) (fun s a s' h _ => hstep s a s' h)
    (fun s a h _ => hQ s a h) h0 q0 (along_of_forall fun _ _ _ => trivial)

/-- **Exactness rule for one error.** If, under an invariant, a step aborts with `e` exactly when
`P` fails of it, a run aborts with `e` exactly when not all its steps meet `P`. -/
theorem run_ne_error_iff_along {Inv : σ → Prop} {P : σ → α → Prop} {e : ε}
    (hstep : ∀ s a s', Inv s → step s a = .ok s' → Inv s')
    (herr : ∀ s a, Inv s → (step s a = .error e ↔ ¬ P s a)) (h0 : Inv s) :
    run step s as ≠ .error e ↔ Along step P s as := by
  have htrue : Always step (fun _ => True) s as :=
    always_invariant (fun _ _ _ _ _ => trivial) trivial
  have hne : run step s as ≠ .error e ↔ ∀ e', run step s as = .error e' → ¬ e' = e := by
    constructor
    · rintro h e' he' rfl
      exact h he'
    · exact fun h he => h e he rfl
  rw [hne, ← error_always_iff_along hstep (Q := fun _ => True) (E := (· = e)) ?_ ?_ h0 trivial]
  · exact (and_iff_left htrue).symm
  · intro s a s' h _ hs
    have := herr s a h
    simpa [hs] using this
  · intro s a e' h _ hs
    have := herr s a h
    rw [hs, Except.error.injEq] at this
    exact not_congr this |>.trans not_not

/-- `Always` in particular covers the last state. -/
theorem Always.last {Q : σ → Prop} (h : Always step Q s as) {t : σ}
    (hr : run step s as = .ok t) : Q t := by
  induction as generalizing s with
  | nil => cases hr; exact h
  | cons a as ih =>
    obtain ⟨s', hs, hr'⟩ := exists_of_run_cons hr
    exact ih ((always_cons_ok hs).mp h).2 hr'

/-! ### Infinite runs -/

/-- An infinite run: `st n` is its state after `n` actions, and `as n` the action taken there. -/
def Path (step : σ → α → Except ε σ) (st : ℕ → σ) (as : ℕ → α) : Prop :=
  ∀ n, step (st n) (as n) = .ok (st (n + 1))

/-- The conditional invariant rule for an infinite run. -/
theorem Path.invariant {Inv : σ → Prop} {P : σ → α → Prop} {st : ℕ → σ} {as : ℕ → α}
    (h : Path step st as) (hstep : ∀ s a s', Inv s → P s a → step s a = .ok s' → Inv s')
    (h0 : Inv (st 0)) (hP : ∀ n, P (st n) (as n)) (n : ℕ) : Inv (st n) := by
  induction n with
  | zero => exact h0
  | succ n ih => exact hstep _ _ _ ih (hP n) (h n)

/-- A run that ends in a state in which an action changes nothing goes on for ever there. -/
theorem exists_path_of_run {P : σ → α → Prop} {a : α} {s t : σ} {as : List α}
    (hrun : run step s as = .ok t) (halong : Along step P s as) (hstay : step t a = .ok t) :
    ∃ st bs, Path step st bs ∧ st 0 = s ∧ ∀ n, P (st n) (bs n) ∨ st n = t := by
  induction as generalizing s with
  | nil =>
    cases hrun
    exact ⟨fun _ => t, fun _ => a, fun _ => hstay, rfl, fun _ => Or.inr rfl⟩
  | cons b as ih =>
    obtain ⟨s', hs, hr⟩ := exists_of_run_cons hrun
    obtain ⟨hb, has⟩ := (along_cons_ok hs).mp halong
    obtain ⟨st, bs, hpath, h0, hP⟩ := ih hr has
    refine ⟨fun n => n.casesOn s st, fun n => n.casesOn b bs, fun n => ?_, rfl, fun n => ?_⟩
    · cases n with
      | zero => exact hs.trans (congrArg Except.ok h0.symm)
      | succ n => exact hpath n
    · cases n with
      | zero => exact Or.inl hb
      | succ n => exact hP n

/-- **Completion rule.** An action that is not enabled changes nothing, one that is enabled
decreases a variant, and until the goal is reached some action is enabled. If an enabled action is
always taken in the end, the goal is reached. -/
theorem Path.exists_goal {β : Type*} [LT β] [WellFoundedLT β] {Inv Q : σ → Prop}
    {Enabled : σ → α → Prop} {V : σ → β} {st : ℕ → σ} {as : ℕ → α} (h : Path step st as)
    (hinv : ∀ n, Inv (st n)) (hstay : ∀ s a s', Inv s → ¬ Enabled s a → step s a = .ok s' → s' = s)
    (hdec : ∀ s a s', Inv s → Enabled s a → step s a = .ok s' → V s' < V s)
    (hgoes : ∀ s, Inv s → ¬ Q s → ∃ a, Enabled s a)
    (hfair : ∀ n, (∃ a, Enabled (st n) a) → ∃ k, Enabled (st (n + k)) (as (n + k))) :
    ∃ n, Q (st n) := by
  suffices hlater : ∀ n, ∃ m, n ≤ m ∧ Q (st m) by
    obtain ⟨m, -, hm⟩ := hlater 0
    exact ⟨m, hm⟩
  intro n
  induction hv : V (st n) using WellFoundedLT.induction generalizing n with
  | ind v ih =>
    by_cases hgoal : Q (st n)
    · exact ⟨n, Nat.le_refl n, hgoal⟩
    · classical
      -- until an enabled action is taken, the state stays the same
      have hex := hfair n (hgoes _ (hinv n) hgoal)
      have hsame : ∀ k ≤ Nat.find hex, st (n + k) = st n := by
        intro k hk
        induction k with
        | zero => rfl
        | succ k ihk =>
          rw [← ihk (Nat.le_of_succ_le hk)]
          exact hstay _ _ _ (hinv _) (Nat.find_min hex hk) (h (n + k))
      have hlt := hdec _ _ _ (hinv _) (Nat.find_spec hex) (h (n + Nat.find hex))
      rw [hsame _ le_rfl, hv] at hlt
      obtain ⟨m, hm, hgoal'⟩ := ih _ hlt (n + Nat.find hex + 1) rfl
      exact ⟨m, by omega, hgoal'⟩

/-- **Liveness rule.** At each time at which `P` holds some action is helpful, and it is taken in
the end. If, as long as `P` holds, every action decreases a variant, or keeps it and is not the
helpful one, which stays helpful, then `P` does not hold for ever. -/
theorem exists_not_of_helpful {β : Type*} [LT β] [WellFoundedLT β] {as help : ℕ → α} {V : ℕ → β}
    {P : ℕ → Prop} (hfair : ∀ n, P n → ∃ k, as (n + k) = help n)
    (hstep : ∀ n, P n → P (n + 1) →
      V (n + 1) < V n ∨ V (n + 1) = V n ∧ help (n + 1) = help n ∧ as n ≠ help n)
    (n : ℕ) : ∃ m, n ≤ m ∧ ¬ P m := by
  induction hv : V n using WellFoundedLT.induction generalizing n with
  | ind v ih =>
    -- an action that decreases the variant is left to the induction on it
    have hnext : ∀ n, V n = v → P n → (P (n + 1) → V (n + 1) = V n → help (n + 1) = help n →
        as n ≠ help n → ∃ m, n + 1 ≤ m ∧ ¬ P m) → ∃ m, n ≤ m ∧ ¬ P m := by
      intro n hv hP hsame
      by_cases hP' : P (n + 1)
      · have hlater : ∃ m, n + 1 ≤ m ∧ ¬ P m := by
          rcases hstep n hP hP' with hlt | ⟨heq, hhelp, hne⟩
          · exact ih _ (hv ▸ hlt) (n + 1) rfl
          · exact hsame hP' heq hhelp hne
        obtain ⟨m, hm, hnot⟩ := hlater
        exact ⟨m, by omega, hnot⟩
      · exact ⟨n + 1, by omega, hP'⟩
    by_cases hP : P n
    · obtain ⟨k, hk⟩ := hfair n hP
      -- `k` is the time until the helpful action is taken
      induction k generalizing n with
      | zero => exact hnext n hv hP fun _ _ _ hne => absurd hk hne
      | succ k ihk =>
        refine hnext n hv hP fun hP' heq hhelp _ => ihk (n + 1) (heq.trans hv) hP' ?_
        rw [hhelp, ← hk]
        congr 1
        omega
    · exact ⟨n, Nat.le_refl n, hP⟩

end Machine
