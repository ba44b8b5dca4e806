import Mathlib.Data.List.Basic

/-!
# Lists as memories and as maps

A memory is a list whose cells are read by position, overwritten in place and allocated
at the end; a map is a list of keys with values.
-/

namespace SkyAccel.Store

open scoped List

section
variable {α β : Type} {l news : List α} {i : Nat} {a : α}

theorem lt_of_some (h : l[i]? = some a) : i < l.length := (List.getElem?_eq_some_iff.mp h).1

theorem getElem?_set (h : l[i]? = some a) (x : α) (j : Nat) :
    (l.set i x)[j]? = if j = i then some x else l[j]? := by
  rw [List.getElem?_set]
  by_cases same : j = i
  · subst same
    rw [if_pos rfl, if_pos rfl, if_pos (lt_of_some h)]
  · rw [if_neg same, if_neg (Ne.symm same)]

theorem getElem?_append (h : (l ++ news)[i]? = some a) : l[i]? = some a ∨ l.length ≤ i ∧ a ∈ news := by
  by_cases inside : i < l.length
  · rw [List.getElem?_append_left inside] at h
    exact .inl h
  · rw [List.getElem?_append_right (Nat.not_lt.mp inside)] at h
    exact .inr ⟨Nat.not_lt.mp inside, List.mem_of_getElem? h⟩

theorem getElem?_concat {b : α} (h : (l ++ [b])[i]? = some a) :
    l[i]? = some a ∨ i = l.length ∧ a = b := by
  obtain old | ⟨beyond, new⟩ := getElem?_append h
  · exact .inl old
  · have inside := lt_of_some h
    simp only [List.length_append, List.length_singleton] at inside
    exact .inr ⟨by omega, List.mem_singleton.mp new⟩

theorem map_set (h : l[i]? = some a) {x : α} {f : α → β} (same : f x = f a) :
    (l.set i x).map f = l.map f := by
  have inside : i < (l.map f).length := by
    rw [List.length_map]
    exact lt_of_some h
  have cell : (l.map f)[i] = f x := by
    rw [List.getElem_map, same]
    exact congrArg f (List.getElem?_eq_some_iff.mp h).2
  rw [List.map_set, ← cell, List.set_getElem_self]

/-- Overwriting a cell exchanges its part of what all cells hold together. -/
theorem flatMap_set_perm (h : l[i]? = some a) (x : α) (f : α → List β) :
    (f a ++ (l.set i x).flatMap f).Perm (f x ++ l.flatMap f) := by
  induction l generalizing i with
  | nil => cases h
  | cons y l ih =>
    cases i with
    | zero =>
      obtain rfl := Option.some.inj h
      rw [List.set_cons_zero, List.flatMap_cons, List.flatMap_cons]
      exact List.perm_append_comm_assoc _ _ _
    | succ i =>
      rw [List.set_cons_succ, List.flatMap_cons, List.flatMap_cons]
      calc f a ++ (f y ++ (l.set i x).flatMap f)
          ~ f y ++ (f a ++ (l.set i x).flatMap f) := List.perm_append_comm_assoc _ _ _
        _ ~ f y ++ (f x ++ l.flatMap f) := (ih h).append_left _
        _ ~ f x ++ (f y ++ l.flatMap f) := List.perm_append_comm_assoc _ _ _

end

section
variable {κ ν α : Type} [DecidableEq κ] {m : List (κ × ν)} {key : κ} {v : ν}

theorem mem_of_lookup (h : m.lookup key = some v) : (key, v) ∈ m := by
  obtain ⟨before, after, rfl, -⟩ := List.lookup_eq_some_iff.mp h
  exact List.mem_append_right _ List.mem_cons_self

/-- What holds of everything in the lists of a map holds of what is in a list found. -/
theorem mem_lookup_getD {m : List (κ × List α)} {P : α → Prop} (all : ∀ kv ∈ m, ∀ a ∈ kv.2, P a)
    {a : α} (h : a ∈ (m.lookup key).getD []) : P a := by
  cases found : m.lookup key with
  | none =>
    rw [found] at h
    cases h
  | some v =>
    rw [found] at h
    exact all _ (mem_of_lookup found) a h

theorem lookup_filter_ne (m : List (κ × ν)) (key deleted : κ) :
    (m.filter fun kv => kv.1 ≠ deleted).lookup key =
      if key = deleted then none else m.lookup key := by
  induction m with
  | nil => simp
  | cons kv m ih =>
    by_cases gone : kv.1 = deleted
    · rw [List.filter_cons_of_neg (by simpa using gone), ih]
      split
      · rfl
      · rename_i ne
        rw [List.lookup_cons, beq_false_of_ne (gone ▸ ne)]
    · rw [List.filter_cons_of_pos (by simpa using gone), List.lookup_cons, List.lookup_cons, ih]
      by_cases same : key = kv.1
      · simp [same, gone]
      · simp [beq_false_of_ne same]

end

end SkyAccel.Store
