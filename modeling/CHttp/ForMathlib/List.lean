import Mathlib.Data.List.Forall2

/-!
# Choices from a list

What is matched with a list is matched in part with a part of it, and the last element of a list is
such a part.
-/

namespace List

/-- A choice from the second list is matched by one from the first. -/
theorem exists_sublist_of_forall₂ {α β : Type*} {R : α → β → Prop} {l : List α} {l' c : List β}
    (h : Forall₂ R l l') (hc : c.Sublist l') : ∃ b, b.Sublist l ∧ Forall₂ R b c := by
  induction hc generalizing l with
  | slnil =>
    cases h
    exact ⟨[], .slnil, .nil⟩
  | cons x _ ih =>
    cases h with
    | cons _ hrest =>
      obtain ⟨b, hb, hr⟩ := ih hrest
      exact ⟨b, hb.cons _, hr⟩
  | cons_cons x _ ih =>
    cases h with
    | cons hx hrest =>
      obtain ⟨b, hb, hr⟩ := ih hrest
      exact ⟨_, hb.cons_cons _, .cons hx hr⟩

theorem toList_getLast?_sublist {α : Type*} (l : List α) : l.getLast?.toList.Sublist l := by
  rcases l.eq_nil_or_concat with rfl | ⟨l', a, rfl⟩
  · exact Sublist.slnil
  · simp

/-- The last element is all there is. -/
theorem toList_getLast?_eq_iff {α : Type*} (l : List α) :
    l.getLast?.toList = l ↔ l.length ≤ 1 := by
  constructor
  · intro h
    rw [← h]
    exact Option.length_toList_le
  · intro h
    rcases l with _ | ⟨a, _ | ⟨b, l⟩⟩
    · rfl
    · rfl
    · simp at h

end List
