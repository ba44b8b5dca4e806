import Mathlib.Data.List.FinRange

/-!
# Random orders

The random choices of a computation, as far as they are orders: the `n`-th time that
something is put into a random order, a permutation of its positions is drawn.
-/

namespace SkyAccel

/-- A permutation for every draw and every length. -/
abbrev Choices := Nat → (k : Nat) → Equiv.Perm (Fin k)

/-- The list in the order that draw `n` gives it. -/
def shuffle {α : Type} (c : Choices) (n : Nat) (l : List α) : List α :=
  List.ofFn fun i => l.get (c n l.length i)

theorem shuffle_perm {α : Type} (c : Choices) (n : Nat) (l : List α) :
    (shuffle c n l).Perm l := by
  have order := (c n l.length).ofFn_comp_perm l.get
  rw [List.ofFn_get] at order
  exact order

end SkyAccel
