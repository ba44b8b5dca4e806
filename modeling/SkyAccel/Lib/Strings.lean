import Mathlib

/-!
# Joining and splitting strings

Go's `strings.Join`, `strings.Split` and `strings.Contains`, on the characters
of the strings. `split_join`: a list of names that do not contain the separator
is recovered from its join, when no proper beginning of the separator is also
an end of it.
-/

namespace SkyAccel.Strings

def join (names : List String) (sep : String) : String := sep.intercalate names

/-- Cut at every leftmost occurrence of `sep`. `skip` counts the characters of
a separator still to be passed over, `cur` holds the current part reversed. -/
def splitChars (sep : List Char) : Nat → List Char → List Char → List (List Char)
  | _, cur, [] => [cur.reverse]
  | skip + 1, cur, _ :: rest => splitChars sep skip cur rest
  | 0, cur, c :: rest =>
    if sep.isPrefixOf (c :: rest) then cur.reverse :: splitChars sep (sep.length - 1) [] rest
    else splitChars sep 0 (c :: cur) rest

def split (s sep : String) : List String :=
  (splitChars sep.toList 0 [] s.toList).map String.ofList

def contains (s sub : String) : Bool := s.toList.tails.any sub.toList.isPrefixOf

theorem contains_iff (s sub : String) : contains s sub = true ↔ sub.toList <:+: s.toList := by
  simp only [contains, List.any_eq_true, List.mem_tails, List.isPrefixOf_iff_prefix]
  constructor
  · rintro ⟨t, ht, hp⟩; exact hp.isInfix.trans ht.isInfix
  · intro h
    obtain ⟨t, hp, hs⟩ := List.infix_iff_prefix_suffix.mp h
    exact ⟨t, hs, hp⟩

/-- No proper non-empty end of `sep` is also a beginning of it. -/
def Unbordered (sep : List Char) : Prop :=
  ∀ u v, sep = u ++ v → u ≠ [] → v ≠ [] → ¬ v <+: sep

section
variable {sep : List Char}

/-- In front of a separator, no occurrence starts inside a name that does not
contain the separator. -/
theorem not_prefix_inside (hsep : Unbordered sep) {x rest : List Char} (hx : x ≠ [])
    (free : ¬ sep <:+: x) : ¬ sep <+: x ++ (sep ++ rest) := by
  rintro ⟨t, ht⟩
  rcases List.append_eq_append_iff.mp ht with ⟨a, rfl, -⟩ | ⟨v, hv, hrest⟩
  · exact free ⟨[], a, by simp⟩
  · by_cases hv0 : v = []
    · subst hv0
      exact free ⟨[], [], by simpa using hv⟩
    · refine hsep x v hv hx hv0 (List.prefix_of_prefix_length_le ⟨t, hrest.symm⟩ ⟨rest, rfl⟩ ?_)
      simp [hv]

theorem splitChars_skip (w rest cur : List Char) :
    splitChars sep w.length cur (w ++ rest) = splitChars sep 0 cur rest := by
  induction w with
  | nil => rfl
  | cons c w ih => simpa [splitChars] using ih

/-- A name in front of a separator becomes one part. -/
theorem splitChars_name (hsep : Unbordered sep) (hne : sep ≠ []) (x cur rest : List Char)
    (free : ¬ sep <:+: x) :
    splitChars sep 0 cur (x ++ (sep ++ rest)) =
      (cur.reverse ++ x) :: splitChars sep 0 [] rest := by
  induction x generalizing cur with
  | nil =>
    obtain ⟨c, w, rfl⟩ := List.exists_cons_of_ne_nil hne
    have here : (c :: w).isPrefixOf (c :: (w ++ rest)) = true :=
      List.isPrefixOf_iff_prefix.mpr ⟨rest, rfl⟩
    simp only [List.nil_append, List.cons_append, splitChars, here, if_true, List.append_nil,
      List.length_cons, Nat.add_sub_cancel, splitChars_skip]
  | cons c x ih =>
    have not_here : sep.isPrefixOf (c :: (x ++ (sep ++ rest))) = false := by
      rw [Bool.eq_false_iff, Ne, List.isPrefixOf_iff_prefix]
      exact not_prefix_inside hsep (List.cons_ne_nil c x) free
    have free' : ¬ sep <:+: x := fun h => free (h.trans (List.suffix_cons c x).isInfix)
    simp only [List.cons_append, splitChars, not_here, Bool.false_eq_true, if_false, ih _ free',
      List.reverse_cons, List.append_assoc, List.nil_append]

theorem splitChars_last (x cur : List Char) (free : ¬ sep <:+: x) :
    splitChars sep 0 cur x = [cur.reverse ++ x] := by
  induction x generalizing cur with
  | nil => simp [splitChars]
  | cons c x ih =>
    have not_here : sep.isPrefixOf (c :: x) = false := by
      rw [Bool.eq_false_iff, Ne, List.isPrefixOf_iff_prefix]
      exact fun h => free h.isInfix
    have free' : ¬ sep <:+: x := fun h => free (h.trans (List.suffix_cons c x).isInfix)
    simp [splitChars, not_here, ih _ free']

theorem splitChars_intercalate (hsep : Unbordered sep) (hne : sep ≠ []) (xs : List (List Char))
    (hxs : xs ≠ []) (free : ∀ x ∈ xs, ¬ sep <:+: x) :
    splitChars sep 0 [] (List.intercalate sep xs) = xs := by
  induction xs with
  | nil => exact absurd rfl hxs
  | cons x xs ih =>
    have hx := free x List.mem_cons_self
    cases xs with
    | nil => simpa [List.intercalate] using splitChars_last x [] hx
    | cons y ys =>
      have rest := ih (List.cons_ne_nil y ys) (fun z hz => free z (List.mem_cons_of_mem x hz))
      have cut := splitChars_name hsep hne x [] (List.intercalate sep (y :: ys)) hx
      rw [rest] at cut
      simpa [List.intercalate, List.intersperse] using cut

end

/-- Splitting undoes joining for names that do not contain the separator. -/
theorem split_join {sep : String} (hsep : Unbordered sep.toList) (hne : sep.toList ≠ [])
    {names : List String} (hn : names ≠ []) (free : ∀ x ∈ names, contains x sep = false) :
    split (join names sep) sep = names := by
  have free' : ∀ x ∈ names.map String.toList, ¬ sep.toList <:+: x := by
    intro x hx
    obtain ⟨y, hy, rfl⟩ := List.mem_map.mp hx
    rw [← contains_iff, free y hy]
    simp
  rw [split, join, String.toList_intercalate, splitChars_intercalate hsep hne _ (by simpa) free',
    List.map_map]
  simp [Function.comp_def]

theorem join_injective {sep : String} (hsep : Unbordered sep.toList) (hne : sep.toList ≠ [])
    {xs ys : List String} (hx : xs ≠ []) (hy : ys ≠ [])
    (fx : ∀ x ∈ xs, contains x sep = false) (fy : ∀ y ∈ ys, contains y sep = false)
    (h : join xs sep = join ys sep) : xs = ys := by
  rw [← split_join hsep hne hx fx, h, split_join hsep hne hy fy]

end SkyAccel.Strings
