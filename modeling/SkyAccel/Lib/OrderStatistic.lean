import Mathlib.Algebra.Order.Field.Basic
import Mathlib.Algebra.Order.Floor.Semiring
import Mathlib.Data.Multiset.Sort
import Mathlib.Tactic.Linarith

/-!
# Order statistics

The elements of a multiset by size, and the value at a position between two of them. On
a multiset that has an element at the position, the value lies between the smallest and
the largest element (`interpolated_bounds`) and grows with the position
(`interpolated_mono`).
-/

namespace SkyAccel.OrderStatistic

section
variable {K : Type} [LinearOrder K]

/-- The element of rank `k`, counted from the smallest one at rank 0. -/
def orderStat (m : Multiset K) (k : Nat) : Option K := m.sort[k]?

variable {m : Multiset K} {j k : Nat} {a b : K}

/-- In a list that is sorted, ranks are positions. -/
theorem orderStat_coe {l : List K} (sorted : l.Pairwise (· ≤ ·)) (k : Nat) :
    orderStat (l : Multiset K) k = l[k]? := by
  have same : (l : Multiset K).sort = l := by
    apply List.Perm.eq_of_pairwise' (Multiset.pairwise_sort _ _) sorted
    exact Multiset.coe_eq_coe.mp (Multiset.sort_eq _ _)
  simp only [orderStat, same]

theorem exists_orderStat (h : k < Multiset.card m) : ∃ a, orderStat m k = some a := by
  have inside : k < m.sort.length := by simpa using h
  exact ⟨_, List.getElem?_eq_getElem inside⟩

theorem lt_card (h : orderStat m k = some a) : k < Multiset.card m := by
  obtain ⟨inside, -⟩ := List.getElem?_eq_some_iff.mp h
  simpa using inside

theorem mem_of_orderStat (h : orderStat m k = some a) : a ∈ m := by
  simpa using List.mem_of_getElem? h

theorem orderStat_mono (le : j ≤ k) (ha : orderStat m j = some a) (hb : orderStat m k = some b) :
    a ≤ b := by
  obtain ⟨hj, rfl⟩ := List.getElem?_eq_some_iff.mp ha
  obtain ⟨hk, rfl⟩ := List.getElem?_eq_some_iff.mp hb
  obtain rfl | less := Nat.eq_or_lt_of_le le
  · exact le_refl _
  · exact List.pairwise_iff_getElem.mp (Multiset.pairwise_sort m _) j k hj hk less

/-- Every element has a rank. -/
theorem exists_rank (h : a ∈ m) : ∃ k, orderStat m k = some a := by
  have sorted : a ∈ m.sort := by simpa using h
  exact List.mem_iff_getElem?.mp sorted

end

/-! ## Between two ranks -/

section
variable {K : Type} [Field K] [LinearOrder K] [FloorSemiring K]

/-- The value at position `x`: linear between the element of the rank below and the next
one, and constant after the last. -/
def interpolated (m : Multiset K) (x : K) : Option K :=
  match orderStat m ⌊x⌋₊, orderStat m (⌊x⌋₊ + 1) with
  | some lower, some upper => some (lower + (x - ⌊x⌋₊) * (upper - lower))
  | some lower, none => some lower
  | none, _ => none

variable [IsStrictOrderedRing K] {m : Multiset K} {x y v w : K}

theorem floor_lt_card (h : x ≤ Multiset.card m - 1) (nonempty : m ≠ 0) :
    ⌊x⌋₊ < Multiset.card m := by
  have pos : 0 < Multiset.card m := Multiset.card_pos.mpr nonempty
  have last : ⌊x⌋₊ ≤ Multiset.card m - 1 := by
    apply Nat.floor_le_of_le
    rwa [Nat.cast_pred pos]
  omega

/-- The value is between the two elements that its position is between. -/
theorem interpolated_between (h : interpolated m x = some v) (pos : 0 ≤ x) :
    ∃ lower, orderStat m ⌊x⌋₊ = some lower ∧ lower ≤ v ∧
      (∀ upper, orderStat m (⌊x⌋₊ + 1) = some upper → v ≤ upper) ∧
      (orderStat m (⌊x⌋₊ + 1) = none → v = lower) := by
  unfold interpolated at h
  split at h
  · rename_i lower upper below above
    obtain rfl := Option.some.inj h
    have rise : 0 ≤ upper - lower := sub_nonneg.mpr (orderStat_mono (Nat.le_succ _) below above)
    have begun : 0 ≤ x - ⌊x⌋₊ := sub_nonneg.mpr (Nat.floor_le pos)
    have unfinished : x - ⌊x⌋₊ ≤ 1 := by linarith [Nat.lt_floor_add_one x]
    refine ⟨lower, below, ?_, fun upper' found => ?_, fun none => ?_⟩
    · linarith [mul_nonneg begun rise]
    · obtain rfl := Option.some.inj (above.symm.trans found)
      linarith [mul_le_mul_of_nonneg_right unfinished rise]
    · exact absurd (above.symm.trans none) (Option.some_ne_none _)
  · rename_i lower below above
    obtain rfl := Option.some.inj h
    refine ⟨lower, below, le_refl _, fun upper found => ?_, fun _ => rfl⟩
    exact absurd (found.symm.trans above) (Option.some_ne_none _)
  · cases h

theorem interpolated_bounds (h : interpolated m x = some v) (pos : 0 ≤ x) :
    ∃ least ∈ m, ∃ greatest ∈ m, (∀ a ∈ m, least ≤ a ∧ a ≤ greatest) ∧
      least ≤ v ∧ v ≤ greatest := by
  obtain ⟨lower, below, le, above, top⟩ := interpolated_between h pos
  have inside := lt_card below
  obtain ⟨least, first⟩ := exists_orderStat (Nat.zero_lt_of_lt inside)
  obtain ⟨greatest, last⟩ := exists_orderStat (Nat.sub_one_lt_of_lt inside)
  refine ⟨least, mem_of_orderStat first, greatest, mem_of_orderStat last, ?_, ?_, ?_⟩
  · intro a mem
    obtain ⟨k, rank⟩ := exists_rank mem
    have bound := lt_card rank
    exact ⟨orderStat_mono (Nat.zero_le k) first rank, orderStat_mono (by omega) rank last⟩
  · exact (orderStat_mono (Nat.zero_le _) first below).trans le
  · cases next : orderStat m (⌊x⌋₊ + 1) with
    | none =>
      rw [top next]
      exact orderStat_mono (by omega) below last
    | some upper =>
      have bound := lt_card next
      exact (above upper next).trans (orderStat_mono (by omega) next last)

theorem interpolated_mono (hx : interpolated m x = some v) (hy : interpolated m y = some w)
    (pos : 0 ≤ x) (le : x ≤ y) : v ≤ w := by
  obtain ⟨lower, below, -, above, top⟩ := interpolated_between hx pos
  obtain ⟨lower', below', le', -, top'⟩ := interpolated_between hy (pos.trans le)
  -- either both positions have the same neighbours, or the upper one of x comes before y
  obtain same | before := Nat.eq_or_lt_of_le (Nat.floor_le_floor le)
  · obtain rfl := Option.some.inj ((same ▸ below).symm.trans below')
    cases next : orderStat m (⌊y⌋₊ + 1) with
    | none => rw [top (same ▸ next), top' next]
    | some upper =>
      simp only [interpolated, same, below', next, Option.some.injEq] at hx hy
      have rise : 0 ≤ upper - lower := sub_nonneg.mpr (orderStat_mono (Nat.le_succ _) below' next)
      rw [← hx, ← hy]
      linarith [mul_le_mul_of_nonneg_right le rise]
  · obtain ⟨upper, next⟩ : ∃ upper, orderStat m (⌊x⌋₊ + 1) = some upper :=
      exists_orderStat (Nat.lt_of_le_of_lt before (lt_card below'))
    calc v ≤ upper := above upper next
      _ ≤ lower' := orderStat_mono before next below'
      _ ≤ w := le'

end

end SkyAccel.OrderStatistic
