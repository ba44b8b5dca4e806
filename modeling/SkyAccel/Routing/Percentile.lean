import SkyAccel.Lib.OrderStatistic
import SkyAccel.Routing.Carousel
import Mathlib.Data.Rat.Floor

/-!
# The hotspot threshold

`computePercentile` of `carousel-greed.go` with its reads of slices, which panic out of
range. The edges come in the order of a map. For a percentage the reads are in range and
the result belongs to the loads alone, in any order (`percentile_spec`); it is the value
that the machine of the solver computes with (`checkedPercentile_eq`).
-/

namespace SkyAccel.Routing

open OrderStatistic

/-- The conversion of a number to `int`, which drops the fraction. -/
def truncate (x : ℚ) : Int := if x < 0 then ⌈x⌉ else ⌊x⌋

/-- `loads[i]`. -/
def loadAt (loads : List ℚ) (i : Int) : Option ℚ := if i < 0 then none else loads[i.toNat]?

namespace FlowOptimizationSolver
variable (d : FlowOptimizationSolver)

def loads : List ℚ := d.edges.map Edge.load

/-- `computePercentile`; `none` is a panic. -/
def checkedPercentile (percentile : ℚ) : Option ℚ := do
  if d.edges.length = 0 then some 0
  else
    let loads ← Sort.checkedSort id d.loads
    let index := percentile / 100 * ((loads.length - 1 : Int) : ℚ)
    let lowerIndex := truncate index
    let upperIndex := lowerIndex + 1
    if loads.length ≤ upperIndex then loadAt loads (loads.length - 1)
    else
      let fraction := index - lowerIndex
      let lower ← loadAt loads lowerIndex
      let upper ← loadAt loads upperIndex
      some (lower + fraction * (upper - lower))

/-- The position of a percentile among the loads by size. -/
def position (percentile : ℚ) : ℚ := percentile / 100 * (d.edges.length - 1)

variable {d : FlowOptimizationSolver} {p q v w : ℚ}

theorem truncate_of_nonneg {x : ℚ} (pos : 0 ≤ x) : truncate x = (⌊x⌋₊ : Int) := by
  rw [truncate, if_neg (not_lt.mpr pos), Int.natCast_floor_eq_floor pos]

theorem loadAt_natCast (loads : List ℚ) (k : Nat) : loadAt loads (k : Int) = loads[k]? := by
  simp [loadAt]

/-- The sorted loads, by rank. -/
theorem orderStat_loads (d : FlowOptimizationSolver) (k : Nat) :
    (Sort.exchangeSort id d.loads)[k]? = orderStat (d.loads : Multiset ℚ) k := by
  have order := Multiset.coe_eq_coe.mpr (Sort.exchangeSort_perm id d.loads)
  rw [← order, orderStat_coe (Sort.exchangeSort_sorted id d.loads)]

theorem length_sorted (d : FlowOptimizationSolver) :
    (Sort.exchangeSort id d.loads).length = d.edges.length := by
  rw [(Sort.exchangeSort_perm id d.loads).length_eq, loads, List.length_map]

section
variable (nonempty : d.edges ≠ []) (nonneg : 0 ≤ p) (le : p ≤ 100)
include nonempty

theorem one_le_length : (1 : ℚ) ≤ d.edges.length := by
  have count : 1 ≤ d.edges.length := List.length_pos_iff.mpr nonempty
  exact_mod_cast count

theorem position_nonneg (nonneg : 0 ≤ p) : 0 ≤ d.position p := by
  have count := one_le_length nonempty
  exact mul_nonneg (by linarith) (by linarith)

theorem position_le (le : p ≤ 100) : d.position p ≤ d.edges.length - 1 := by
  have count := one_le_length nonempty
  exact mul_le_of_le_one_left (by linarith) (by linarith)

theorem position_mono (le : p ≤ q) : d.position p ≤ d.position q := by
  have count := one_le_length nonempty
  exact mul_le_mul_of_nonneg_right (by linarith) (by linarith)

include le

/-- There is a load at the position, and the next one is missing only at the end. -/
theorem exists_around : ∃ lower, orderStat (d.loads : Multiset ℚ) ⌊d.position p⌋₊ = some lower ∧
    (orderStat (d.loads : Multiset ℚ) (⌊d.position p⌋₊ + 1) = none ↔
      d.edges.length = ⌊d.position p⌋₊ + 1) := by
  have card : Multiset.card (d.loads : Multiset ℚ) = d.edges.length := by simp [loads]
  have count : 0 < d.edges.length := List.length_pos_iff.mpr nonempty
  have inside : ⌊d.position p⌋₊ < Multiset.card (d.loads : Multiset ℚ) := by
    apply floor_lt_card
    · simpa only [card] using position_le nonempty le
    · exact Multiset.card_pos.mp (card ▸ count)
  obtain ⟨lower, below⟩ := exists_orderStat inside
  refine ⟨lower, below, fun none => ?_, fun last => ?_⟩
  · by_contra more
    obtain ⟨upper, above⟩ := exists_orderStat (m := (d.loads : Multiset ℚ))
      (k := ⌊d.position p⌋₊ + 1) (by omega)
    exact absurd (above.symm.trans none) (Option.some_ne_none _)
  · by_contra more
    obtain ⟨upper, above⟩ := Option.ne_none_iff_exists'.mp more
    have := lt_card above
    omega

include nonneg

/-- The code reads the two order statistics around the position. -/
theorem checkedPercentile_eq_interpolated :
    d.checkedPercentile p = interpolated (d.loads : Multiset ℚ) (d.position p) := by
  obtain ⟨lower, below, last⟩ := exists_around nonempty le
  have count : d.edges.length ≠ 0 := fun none => nonempty (List.length_eq_zero_iff.mp none)
  have index : p / 100 * ((d.edges.length - 1 : Int) : ℚ) = d.position p := by simp [position]
  simp only [checkedPercentile, if_neg count, Sort.checkedSort_eq, Option.bind_eq_bind,
    Option.bind_some, length_sorted, index, truncate_of_nonneg (position_nonneg nonempty nonneg),
    interpolated, below]
  cases above : orderStat (d.loads : Multiset ℚ) (⌊d.position p⌋₊ + 1) with
  | none =>
    have length := last.mp above
    have here : (d.edges.length : Int) - 1 = (⌊d.position p⌋₊ : Nat) := by omega
    rw [if_pos (by omega), here, loadAt_natCast, orderStat_loads, below]
  | some upper =>
    have bound := lt_card above
    have next : (⌊d.position p⌋₊ : Int) + 1 = (⌊d.position p⌋₊ + 1 : Nat) := by simp
    have more : ¬ (d.edges.length : Int) ≤ (⌊d.position p⌋₊ : Int) + 1 := by
      simp only [Multiset.coe_card, loads, List.length_map] at bound
      omega
    rw [if_neg more, next, loadAt_natCast, loadAt_natCast, orderStat_loads, orderStat_loads, below,
      above]
    simp

/-- For a percentage the reads are in range, and the machine of the solver computes with
what they give. -/
theorem checkedPercentile_eq : d.checkedPercentile p = some (d.computePercentile p) := by
  obtain ⟨lower, below, last⟩ := exists_around nonempty le
  have index : p / 100 * ((d.edges.length : ℚ) - 1) = d.position p := rfl
  have floor : (d.position p).floor.toNat = ⌊d.position p⌋₊ := rfl
  have sorted := length_sorted d
  rw [checkedPercentile_eq_interpolated nonempty nonneg le]
  simp only [computePercentile, interpolated]
  rw [show d.edges.map Edge.load = d.loads from rfl, sorted, index, floor, orderStat_loads,
    orderStat_loads, below]
  cases above : orderStat (d.loads : Multiset ℚ) (⌊d.position p⌋₊ + 1) with
  | none =>
    have top : ⌊d.position p⌋₊ = (Sort.exchangeSort id d.loads).length - 1 := by
      have length := last.mp above
      omega
    rw [top, ← orderStat_loads, ← List.getLast?_eq_getElem?] at below
    simp [List.getLastD_eq_getLast?, below]
  | some upper => rfl

end

/-! ## The percentile of the loads -/

/-- **The threshold depends on the loads alone.** For edges in any order and a percentage
no read is out of range. The result is the linear interpolation of the order statistics of
the loads, is the same for every order of the edges, lies between the smallest and the
largest load, and grows with the percentage. -/
theorem percentile_spec (d : FlowOptimizationSolver) (nonempty : d.edges ≠ []) {p : ℚ}
    (nonneg : 0 ≤ p) (le : p ≤ 100) :
    d.checkedPercentile p = some (d.computePercentile p) ∧
      interpolated (d.loads : Multiset ℚ) (d.position p) = some (d.computePercentile p) ∧
      (∀ d' : FlowOptimizationSolver, d'.edges.Perm d.edges →
        d'.computePercentile p = d.computePercentile p) ∧
      (∃ least ∈ d.loads, ∃ greatest ∈ d.loads, (∀ load ∈ d.loads, least ≤ load ∧ load ≤ greatest) ∧
        least ≤ d.computePercentile p ∧ d.computePercentile p ≤ greatest) ∧
      ∀ q, p ≤ q → q ≤ 100 → d.computePercentile p ≤ d.computePercentile q := by
  have value : ∀ (d : FlowOptimizationSolver) (q : ℚ), d.edges ≠ [] → 0 ≤ q → q ≤ 100 →
      interpolated (d.loads : Multiset ℚ) (d.position q) = some (d.computePercentile q) := by
    intro d q nonempty nonneg le
    rw [← checkedPercentile_eq_interpolated nonempty nonneg le,
      checkedPercentile_eq nonempty nonneg le]
  have here := value d p nonempty nonneg le
  refine ⟨checkedPercentile_eq nonempty nonneg le, here, ?_, ?_, ?_⟩
  · intro d' order
    have there := value d' p (fun none => nonempty (by simpa [none] using order.symm)) nonneg le
    have loads : (d'.loads : Multiset ℚ) = d.loads := Multiset.coe_eq_coe.mpr (order.map _)
    have position : d'.position p = d.position p := by simp only [position, order.length_eq]
    rw [loads, position, here] at there
    exact (Option.some.inj there).symm
  · simpa only [Multiset.mem_coe] using interpolated_bounds here (position_nonneg nonempty nonneg)
  · intro q more le'
    exact interpolated_mono here (value d q nonempty (nonneg.trans more) le')
      (position_nonneg nonempty nonneg) (position_mono nonempty more)

/-- Three edges, whose loads are not in order. -/
def threeLoads : FlowOptimizationSolver :=
  newFlowOptimizationSolver [⟨"a", "b", 1, 30, 1⟩, ⟨"b", "c", 1, 10, 1⟩, ⟨"c", "a", 1, 20, 1⟩]

theorem percentile_spec_threeLoads :
    threeLoads.checkedPercentile 90 = some 28 ∧
      ∀ d' : FlowOptimizationSolver, d'.edges.Perm threeLoads.edges →
        d'.computePercentile 90 = 28 := by
  have value : threeLoads.computePercentile 90 = 28 := by decide +kernel
  obtain ⟨checked, -, order, -⟩ := percentile_spec threeLoads (List.cons_ne_nil _ _) (p := 90)
    (by norm_num) (by norm_num)
  rw [value] at checked
  exact ⟨checked, fun d' perm => (order d' perm).trans value⟩

end FlowOptimizationSolver

end SkyAccel.Routing
