import Mathlib.Algebra.BigOperators.Ring.List
import Mathlib.Algebra.Order.BigOperators.Group.List
import Mathlib.Algebra.Order.Field.Basic
import Mathlib.Data.List.Chain
import Mathlib.Data.List.Induction
import Mathlib.Tactic.LinearCombination
import Mathlib.Tactic.Linarith

/-!
# Distributions and moving averages

Over an ordered field. `shares` divides weights by their sum, which makes positive weights
a distribution (`shares_isDistribution`); the `share` of an element does not depend on the
order of the others (`share_perm`) and grows with its weight (`share_le_share`).
`ewma` is the exponentially weighted moving average of observations, each with its own
smoothing factor; it always is the last observation exactly if every observation repeats
the one before it or has factor 1 (`ewma_eq_last_iff`). With factors between 0 and 1 an
average stays between the smallest and the largest observation (`smooth_between`).
-/

namespace SkyAccel.Averages

variable {K : Type} [Field K]

section
variable [LinearOrder K]

structure IsDistribution (l : List K) : Prop where
  pos : ∀ x ∈ l, 0 < x
  le_one : ∀ x ∈ l, x ≤ 1
  sum : l.sum = 1

theorem IsDistribution.perm {l l' : List K} (order : l.Perm l') (h : IsDistribution l) :
    IsDistribution l' where
  pos x mem := h.pos x (order.mem_iff.mpr mem)
  le_one x mem := h.le_one x (order.mem_iff.mpr mem)
  sum := order.sum_eq.symm.trans h.sum

theorem isDistribution_perm_iff {l l' : List K} (order : l.Perm l') :
    IsDistribution l ↔ IsDistribution l' := ⟨.perm order, .perm order.symm⟩

variable [IsStrictOrderedRing K]

/-- Positive numbers that add up to one are at most one. -/
theorem isDistribution_iff {l : List K} : IsDistribution l ↔ (∀ x ∈ l, 0 < x) ∧ l.sum = 1 := by
  constructor
  · exact fun h => ⟨h.pos, h.sum⟩
  · rintro ⟨pos, sum⟩
    refine ⟨pos, fun x mem => ?_, sum⟩
    rw [← sum]
    exact List.single_le_sum (fun y mem => (pos y mem).le) x mem

end

/-- Each weight as a part of their sum. -/
def shares (ws : List K) : List K := ws.map (· / ws.sum)

theorem shares_isDistribution [LinearOrder K] [IsStrictOrderedRing K] {ws : List K}
    (pos : ∀ w ∈ ws, 0 < w) (some : ws ≠ []) : IsDistribution (shares ws) := by
  have total : 0 < ws.sum := List.sum_pos ws pos some
  refine isDistribution_iff.mpr ⟨fun x mem => ?_, ?_⟩
  · obtain ⟨w, inside, rfl⟩ := List.mem_map.mp mem
    exact div_pos (pos w inside) total
  · simp only [shares, div_eq_mul_inv]
    rw [List.sum_map_mul_right, List.map_id']
    exact mul_inv_cancel₀ total.ne'

/-- The weights may be given by a function. -/
theorem shares_map_isDistribution [LinearOrder K] [IsStrictOrderedRing K] {α : Type} {l : List α}
    {weight : α → K} (pos : ∀ a, 0 < weight a) (some : l ≠ []) :
    IsDistribution (shares (l.map weight)) := by
  apply shares_isDistribution
  · intro w mem
    obtain ⟨a, -, rfl⟩ := List.mem_map.mp mem
    exact pos a
  · exact fun none => some (List.map_eq_nil_iff.mp none)

/-- The share of one element, by weight. -/
def share {α : Type} (weight : α → K) (l : List α) (a : α) : K := weight a / (l.map weight).sum

theorem shares_map {α : Type} (weight : α → K) (l : List α) :
    shares (l.map weight) = l.map (share weight l) := by
  simp only [shares, List.map_map]
  rfl

/-- The order of the others plays no part. -/
theorem share_perm {α : Type} {l l' : List α} (order : l.Perm l') (weight : α → K) :
    share weight l = share weight l' := by
  funext a
  simp only [share, (order.map weight).sum_eq]

theorem share_le_share [LinearOrder K] [IsStrictOrderedRing K] {α : Type} {weight : α → K}
    (pos : ∀ a, 0 < weight a) (l : List α) {a b : α} (le : weight a ≤ weight b) :
    share weight l a ≤ share weight l b := by
  apply div_le_div_of_nonneg_right le
  apply List.sum_nonneg
  simpa using fun a _ => (pos a).le

/-! ## Moving averages -/

/-- One observation with its smoothing factor. The first one is taken as it is. -/
def smooth (average : Option K) (x : K × K) : K :=
  match average with
  | none => x.2
  | some X => x.1 * x.2 + (1 - x.1) * X

def ewma (l : List (K × K)) : Option K := l.foldl (fun average x => some (smooth average x)) none

theorem ewma_snoc (l : List (K × K)) (x : K × K) : ewma (l ++ [x]) = some (smooth (ewma l) x) := by
  rw [ewma, List.foldl_append]
  rfl

/-- The average does not remember: each observation repeats the last or has factor 1. -/
def Steady (l : List (K × K)) : Prop := l.IsChain fun x y => y.1 = 1 ∨ y.2 = x.2

theorem smooth_eq_iff (X : K) (x : K × K) : smooth (some X) x = x.2 ↔ x.1 = 1 ∨ x.2 = X := by
  have split : x.1 * x.2 + (1 - x.1) * X = x.2 ↔ (x.1 - 1) * (x.2 - X) = 0 := by
    constructor
    · intro h
      linear_combination h
    · intro h
      linear_combination h
  rw [smooth, split, mul_eq_zero, sub_eq_zero, sub_eq_zero]

theorem ewma_eq_last_iff (l : List (K × K)) :
    (∀ l' x, l' ++ [x] <+: l → ewma (l' ++ [x]) = some x.2) ↔ Steady l := by
  -- by induction from the end; the average before the last observation is the one before it
  induction l using List.reverseRecOn with
  | nil =>
    refine iff_of_true (fun l' x whole => ?_) .nil
    exact absurd (List.prefix_nil.mp whole) (List.append_ne_nil_of_right_ne_nil _ (by simp))
  | append_singleton l y ih =>
    have last : (∀ l' x, l' ++ [x] <+: l ++ [y] → ewma (l' ++ [x]) = some x.2) ↔
        (∀ l' x, l' ++ [x] <+: l → ewma (l' ++ [x]) = some x.2) ∧ smooth (ewma l) y = y.2 := by
      constructor
      · intro all
        refine ⟨fun l' x part => all l' x (List.prefix_concat_iff.mpr (.inr part)), ?_⟩
        have here := all l y List.prefix_rfl
        rw [ewma_snoc] at here
        exact Option.some.inj here
      · rintro ⟨before, here⟩ l' x part
        obtain same | part := List.prefix_concat_iff.mp part
        · rw [same, ewma_snoc]
          obtain ⟨-, rfl⟩ := List.append_singleton_inj.mp same
          rw [here]
        · exact before l' x part
    rw [last, Steady, List.isChain_append]
    constructor
    · rintro ⟨before, here⟩
      refine ⟨ih.mp before, .singleton y, fun x atEnd y' first => ?_⟩
      obtain rfl := Option.some.inj first
      obtain ⟨l', rfl⟩ := List.getLast?_eq_some_iff.mp atEnd
      rw [before l' x List.prefix_rfl] at here
      exact (smooth_eq_iff x.2 y).mp here
    · rintro ⟨before, -, joint⟩
      have all := ih.mpr before
      refine ⟨all, ?_⟩
      obtain rfl | ⟨l', x, rfl⟩ := List.eq_nil_or_concat l
      · rfl
      · rw [List.concat_eq_append] at all joint ⊢
        rw [all l' x List.prefix_rfl]
        exact (smooth_eq_iff x.2 y).mpr (joint x (by simp) y rfl)

/-! ## The range of an average -/

section
variable [LinearOrder K]

/-- Between the smallest and the largest element. -/
def Between (l : List K) (v : K) : Prop :=
  ∃ least greatest, l.min? = some least ∧ l.max? = some greatest ∧ least ≤ v ∧ v ≤ greatest

omit [Field K] in
theorem between_iff {l : List K} {v : K} : Between l v ↔ ∃ a ∈ l, ∃ b ∈ l, a ≤ v ∧ v ≤ b := by
  constructor
  · rintro ⟨least, greatest, first, last, low, high⟩
    exact ⟨least, List.min?_mem first, greatest, List.max?_mem last, low, high⟩
  · rintro ⟨a, ha, b, hb, low, high⟩
    obtain ⟨least, first⟩ := Option.isSome_iff_exists.mp (List.isSome_min?_of_mem ha)
    obtain ⟨greatest, last⟩ := Option.isSome_iff_exists.mp (List.isSome_max?_of_mem hb)
    have low' := (List.min?_eq_some_iff.mp first).2 a ha
    have high' := (List.max?_eq_some_iff.mp last).2 b hb
    exact ⟨least, greatest, first, last, low'.trans low, high.trans high'⟩

variable [IsStrictOrderedRing K] {alpha x X b : K}

theorem smooth_le (nonneg : 0 ≤ alpha) (le : alpha ≤ 1) (hx : x ≤ b) (hX : X ≤ b) :
    smooth (some X) (alpha, x) ≤ b := by
  have new : alpha * x ≤ alpha * b := mul_le_mul_of_nonneg_left hx nonneg
  have old : (1 - alpha) * X ≤ (1 - alpha) * b :=
    mul_le_mul_of_nonneg_left hX (sub_nonneg.mpr le)
  simp only [smooth]
  linarith

theorem le_smooth (nonneg : 0 ≤ alpha) (le : alpha ≤ 1) (hx : b ≤ x) (hX : b ≤ X) :
    b ≤ smooth (some X) (alpha, x) := by
  have new : alpha * b ≤ alpha * x := mul_le_mul_of_nonneg_left hx nonneg
  have old : (1 - alpha) * b ≤ (1 - alpha) * X :=
    mul_le_mul_of_nonneg_left hX (sub_nonneg.mpr le)
  simp only [smooth]
  linarith

/-- An average of observations stays among them when the next one comes in. -/
theorem smooth_between {l : List K} {average : Option K} (nonneg : 0 ≤ alpha) (le : alpha ≤ 1)
    (before : ∀ X ∈ average, Between l X) (x : K) :
    Between (l ++ [x]) (smooth average (alpha, x)) := by
  cases average with
  | none => exact between_iff.mpr ⟨x, by simp, x, by simp, le_refl x, le_refl x⟩
  | some X =>
    obtain ⟨a, ha, b, hb, low, high⟩ := between_iff.mp (before X rfl)
    have least : min a x ∈ l ++ [x] := by
      obtain same | same := min_choice a x <;> simp [same, ha]
    have greatest : max b x ∈ l ++ [x] := by
      obtain same | same := max_choice b x <;> simp [same, hb]
    refine between_iff.mpr ⟨min a x, least, max b x, greatest, ?_, ?_⟩
    · exact le_smooth nonneg le (min_le_right a x) ((min_le_left a x).trans low)
    · exact smooth_le nonneg le (le_max_right b x) (high.trans (le_max_left b x))

end

/-- The prefixes of what a list yields are what its prefixes yield. -/
theorem forall_prefix_filterMap_iff {α β : Type} (f : α → Option β) (P : List β → β → Prop)
    (l : List α) :
    (∀ l' x, l' ++ [x] <+: l.filterMap f → P (l' ++ [x]) x) ↔
      ∀ before a, before ++ [a] <+: l → ∀ x ∈ f a, P ((before ++ [a]).filterMap f) x := by
  have ends : ∀ (before : List α) {a : α} {x : β}, f a = some x →
      (before ++ [a]).filterMap f = before.filterMap f ++ [x] := by
    intro before a x yields
    rw [List.filterMap_append, List.filterMap_cons_some yields, List.filterMap_nil]
  constructor
  · intro all before a part x yields
    have whole := part.filterMap f
    rw [ends before yields] at whole ⊢
    exact all _ x whole
  · intro all l' x part
    induction l using List.reverseRecOn with
    | nil => exact absurd (List.prefix_nil.mp part) (List.append_ne_nil_of_right_ne_nil _ (by simp))
    | append_singleton l a ih =>
      have before := fun b a part => all b a (List.prefix_concat_iff.mpr (.inr part))
      cases yields : f a with
      | none =>
        rw [List.filterMap_append, List.filterMap_cons_none yields, List.filterMap_nil,
          List.append_nil] at part
        exact ih before part
      | some y =>
        rw [ends l yields] at part
        obtain same | part := List.prefix_concat_iff.mp part
        · obtain ⟨-, rfl⟩ := List.append_singleton_inj.mp same
          rw [same, ← ends l yields]
          exact all l a List.prefix_rfl x yields
        · exact ih before part

end SkyAccel.Averages
