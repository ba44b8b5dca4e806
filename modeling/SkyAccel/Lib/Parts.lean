import Mathlib.Data.List.Forall2

/-!
# Lists made of parts

A list that is put together from parts, one for each entry of another list.
-/

namespace SkyAccel.Parts

/-- Parts for the entries that a filter keeps, filled up with nothing for the others. -/
theorem exists_parts {α β γ : Type} (f : α → Option β) {R : β → List γ → Prop}
    {Q : α → List γ → Prop} (skipped : ∀ x, f x = none → Q x [])
    (kept : ∀ x y part, f x = some y → R y part → Q x part) (xs : List α) (parts : List (List γ))
    (h : List.Forall₂ R (xs.filterMap f) parts) :
    ∃ all, List.Forall₂ Q xs all ∧ all.flatten = parts.flatten := by
  induction xs generalizing parts with
  | nil => cases h; exact ⟨[], .nil, rfl⟩
  | cons x xs ih =>
    cases found : f x with
    | none =>
      rw [List.filterMap_cons_none found] at h
      obtain ⟨all, each, same⟩ := ih parts h
      exact ⟨[] :: all, .cons (skipped x found) each, same⟩
    | some y =>
      rw [List.filterMap_cons_some found] at h
      cases h with
      | cons first rest =>
        obtain ⟨all, each, same⟩ := ih _ rest
        exact ⟨_ :: all, .cons (kept x y _ found first) each, by simp [same]⟩

theorem forall₂_zipIdx {α : Type} (l : List α) (n : Nat) :
    List.Forall₂ (fun a x => x.1 = a) l (l.zipIdx n) := by
  induction l generalizing n with
  | nil => exact .nil
  | cons a l ih => exact .cons rfl (ih (n + 1))

theorem forall₂_mem_right {α β : Type} {R : α → β → Prop} {l : List α} {l' : List β}
    (h : List.Forall₂ R l l') : ∀ b ∈ l', ∃ a ∈ l, R a b := by
  induction h with
  | nil => exact fun _ none => absurd none List.not_mem_nil
  | cons first _ ih =>
    intro b mem
    obtain rfl | mem := List.mem_cons.mp mem
    · exact ⟨_, List.mem_cons_self, first⟩
    · obtain ⟨a, inside, related⟩ := ih b mem
      exact ⟨a, List.mem_cons_of_mem _ inside, related⟩

end SkyAccel.Parts
