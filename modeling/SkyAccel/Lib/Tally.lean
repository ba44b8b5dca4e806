import SkyAccel.Lib.Store
import Mathlib.Algebra.BigOperators.Group.List.Basic
import Mathlib.Algebra.Order.Group.Multiset
import Mathlib.Tactic.Abel

/-!
# Tallies

What the cells of a list hold together, in a commutative monoid: the multiset of the things
in them, or their number. Overwriting, adding and taking out a cell changes the tally by the
cell.
-/

namespace SkyAccel

section
variable {α M : Type} [AddCommMonoid M]

def tally (f : α → M) (l : List α) : M := (l.map f).sum

variable {f : α → M} {l : List α} {i : Nat} {a : α}

@[simp] theorem tally_nil : tally f [] = 0 := rfl

@[simp] theorem tally_cons (a : α) (l : List α) : tally f (a :: l) = f a + tally f l := by
  simp [tally]

@[simp] theorem tally_append (l l' : List α) : tally f (l ++ l') = tally f l + tally f l' := by
  simp [tally]

theorem tally_set (h : l[i]? = some a) (x : α) : tally f (l.set i x) + f a = tally f l + f x := by
  induction l generalizing i with
  | nil => cases h
  | cons y l ih =>
    cases i with
    | zero =>
      obtain rfl := Option.some.inj h
      simp only [List.set_cons_zero, tally_cons]
      abel
    | succ i =>
      simp only [List.set_cons_succ, tally_cons, add_assoc, ih h]

/-- Overwriting a cell with one that holds the same. -/
theorem tally_set_same (h : l[i]? = some a) {x : α} (same : f x = f a) :
    tally f (l.set i x) = tally f l := by
  rw [tally, Store.map_set h same, tally]

/-- Overwriting a cell with one that holds something more. -/
theorem tally_set_more (h : l[i]? = some a) {x : α} {d : M} (more : f x = f a + d) :
    tally f (l.set i x) = tally f l + d := by
  induction l generalizing i with
  | nil => cases h
  | cons y l ih =>
    cases i with
    | zero =>
      obtain rfl := Option.some.inj h
      simp only [List.set_cons_zero, tally_cons, more]
      abel
    | succ i => simp only [List.set_cons_succ, tally_cons, add_assoc, ih h]

/-- Overwriting a cell with one that holds something less. -/
theorem tally_set_less (h : l[i]? = some a) {x : α} {d : M} (less : f a = f x + d) :
    tally f (l.set i x) + d = tally f l := by
  induction l generalizing i with
  | nil => cases h
  | cons y l ih =>
    cases i with
    | zero =>
      obtain rfl := Option.some.inj h
      simp only [List.set_cons_zero, tally_cons, less]
      abel
    | succ i => simp only [List.set_cons_succ, tally_cons, add_assoc, ih h]

theorem tally_eraseIdx (h : l[i]? = some a) : tally f (l.eraseIdx i) + f a = tally f l := by
  induction l generalizing i with
  | nil => cases h
  | cons y l ih =>
    cases i with
    | zero =>
      obtain rfl := Option.some.inj h
      exact add_comm _ _
    | succ i =>
      simp only [List.eraseIdx_cons_succ, tally_cons, add_assoc, ih h]

/-- What no cell holds, the list does not. -/
theorem tally_eq_zero (none : ∀ a ∈ l, f a = 0) : tally f l = 0 := by
  induction l with
  | nil => rfl
  | cons a l ih =>
    simp [none a List.mem_cons_self, ih fun b hb => none b (List.mem_cons_of_mem _ hb)]

/-- What is in a list of bags is in one of them. -/
theorem mem_tally {β : Type} {f : α → Multiset β} {l : List α} {b : β} :
    b ∈ tally f l ↔ ∃ a ∈ l, b ∈ f a := by
  induction l with
  | nil => simp
  | cons a l ih => simp [ih]

/-- Bags that hold at most one thing each. -/
theorem card_tally_le {β : Type} {f : α → Multiset β} {l : List α}
    (one : ∀ a ∈ l, (f a).card ≤ 1) : (tally f l).card ≤ l.length := by
  induction l with
  | nil => simp
  | cons a l ih =>
    have first := one a List.mem_cons_self
    have rest := ih fun b mem => one b (List.mem_cons_of_mem _ mem)
    simp only [tally_cons, Multiset.card_add, List.length_cons]
    omega

end

end SkyAccel
