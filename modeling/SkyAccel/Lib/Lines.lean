import Mathlib.Data.List.Basic

/-!
# Lines of a stream

A line is what a delimiter ends, the delimiter included. `lines` are the complete lines of
a stream; what follows the last delimiter is no line yet.
-/

namespace SkyAccel.Lines

variable {α : Type} [DecidableEq α] (delim : α)

/-- The lines of a stream of which `acc` is already read. -/
def linesFrom : List α → List α → List (List α)
  | _, [] => []
  | acc, a :: l => if a = delim then (acc ++ [a]) :: linesFrom [] l else linesFrom (acc ++ [a]) l

def lines (l : List α) : List (List α) := linesFrom delim [] l

def IsLine (x : List α) : Prop := ∃ l, delim ∉ l ∧ x = l ++ [delim]

variable {delim}

theorem linesFrom_append {l : List α} (free : delim ∉ l) (acc rest : List α) :
    linesFrom delim acc (l ++ rest) = linesFrom delim (acc ++ l) rest := by
  induction l generalizing acc with
  | nil => rw [List.nil_append, List.append_nil]
  | cons a l ih =>
    rw [List.mem_cons, not_or] at free
    rw [List.cons_append, linesFrom, if_neg (Ne.symm free.1), ih free.2, List.append_assoc]
    rfl

theorem lines_line_append {x : List α} (line : IsLine delim x) (rest : List α) :
    lines delim (x ++ rest) = x :: lines delim rest := by
  obtain ⟨l, free, rfl⟩ := line
  rw [lines, List.append_assoc, linesFrom_append free, List.singleton_append, linesFrom,
    if_pos rfl]
  rfl

theorem lines_flatten_append {xs : List (List α)} (all : ∀ x ∈ xs, IsLine delim x)
    (rest : List α) : lines delim (xs.flatten ++ rest) = xs ++ lines delim rest := by
  induction xs with
  | nil => rfl
  | cons x xs ih =>
    obtain ⟨line, all⟩ := List.forall_mem_cons.mp all
    rw [List.flatten_cons, List.append_assoc, lines_line_append line, ih all]
    rfl

theorem takeWhile_line {l : List α} (free : delim ∉ l) (rest : List α) :
    (l ++ delim :: rest).takeWhile (· ≠ delim) = l ∧
      (l ++ delim :: rest).dropWhile (· ≠ delim) = delim :: rest := by
  have before : ∀ a ∈ l, decide (a ≠ delim) = true := fun a inside =>
    decide_eq_true fun same => free (same ▸ inside)
  rw [List.takeWhile_append_of_pos before, List.dropWhile_append_of_pos before]
  simp

/-- Where a stream has a delimiter it starts with a line. -/
theorem eq_line_append {l : List α} (there : delim ∈ l) :
    IsLine delim (l.takeWhile (· ≠ delim) ++ [delim]) ∧
      l = l.takeWhile (· ≠ delim) ++ [delim] ++ (l.dropWhile (· ≠ delim)).tail := by
  obtain ⟨first, rest, rfl, free⟩ := List.eq_append_cons_of_mem there
  obtain ⟨taken, dropped⟩ := takeWhile_line free rest
  rw [taken, dropped]
  exact ⟨⟨first, free, rfl⟩, by simp⟩

theorem IsLine.takeWhile {x : List α} (line : IsLine delim x) :
    x.takeWhile (· ≠ delim) ++ [delim] = x := by
  obtain ⟨l, free, rfl⟩ := line
  rw [(takeWhile_line free []).1]

omit [DecidableEq α] in
/-- A line has its delimiter at the end only. -/
theorem IsLine.eq_of_isPrefix {x y : List α} (line : IsLine delim x) (pre : y <+: x)
    (there : delim ∈ y) : y = x := by
  obtain ⟨l, free, rfl⟩ := line
  obtain whole | within := List.prefix_concat_iff.mp pre
  · exact whole
  · exact absurd (within.subset there) free

end SkyAccel.Lines
