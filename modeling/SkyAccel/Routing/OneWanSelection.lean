import SkyAccel.Lib.Parts
import SkyAccel.Routing.OneWanPaths

/-!
# What the ONE-WAN solver returns

A selection never draws one index twice: the random number is at most the probability that
is left, so the loop over cumulative probabilities stops at an index left before it falls
through (`selectedPathIdx_left`). `selection_sound` is the result on the solver.
-/

namespace SkyAccel.Routing

/-! ## Sampling -/

section
variable {selected : List Nat} {probs : List (ℚ × Nat)}

theorem foldl_left_eq (probs : List (ℚ × Nat)) (total : ℚ) :
    probs.foldl (fun total x => if x.2 ∈ selected then total else total + x.1) total =
      total + totalProb selected probs := by
  induction probs generalizing total with
  | nil => simp [totalProb]
  | cons x probs ih =>
    rw [totalProb, List.foldl_cons, List.foldl_cons, ih, ih]
    split <;> ring

theorem totalProb_cons (x : ℚ × Nat) (probs : List (ℚ × Nat)) :
    totalProb selected (x :: probs) =
      (if x.2 ∈ selected then 0 else x.1) + totalProb selected probs := by
  rw [totalProb, List.foldl_cons, foldl_left_eq]
  split <;> ring

theorem totalProb_nonneg (nonneg : ∀ x ∈ probs, 0 ≤ x.1) : 0 ≤ totalProb selected probs := by
  induction probs with
  | nil => exact le_refl _
  | cons x probs ih =>
    rw [totalProb_cons]
    apply add_nonneg
    · split
      · exact le_refl _
      · exact nonneg x List.mem_cons_self
    · exact ih fun y mem => nonneg y (List.mem_cons_of_mem _ mem)

theorem totalProb_eq_zero (all : ∀ x ∈ probs, x.2 ∈ selected) : totalProb selected probs = 0 := by
  induction probs with
  | nil => rfl
  | cons x probs ih =>
    rw [totalProb_cons, if_pos (all x List.mem_cons_self),
      ih fun y mem => all y (List.mem_cons_of_mem _ mem), add_zero]

/-- While some index is left and `r` is within what is left, the loop stops at one. -/
theorem selectedPathIdx_left {r cumulative : ℚ}
    (within : r ≤ cumulative + totalProb selected probs) (left : ∃ x ∈ probs, x.2 ∉ selected) :
    selectedPathIdx selected r cumulative probs ∉ selected ∧
      ∃ x ∈ probs, x.2 = selectedPathIdx selected r cumulative probs := by
  induction probs generalizing cumulative with
  | nil => obtain ⟨x, mem, -⟩ := left; cases mem
  | cons x probs ih =>
    obtain ⟨prob, pathIdx⟩ := x
    rw [totalProb_cons] at within
    rw [selectedPathIdx]
    split
    · rename_i gone
      rw [if_pos gone, zero_add] at within
      have left : ∃ x ∈ probs, x.2 ∉ selected := by
        obtain ⟨x, mem, new⟩ := left
        obtain rfl | mem := List.mem_cons.mp mem
        · exact absurd gone new
        · exact ⟨x, mem, new⟩
      obtain ⟨new, x, mem, eq⟩ := ih within left
      exact ⟨new, x, List.mem_cons_of_mem _ mem, eq⟩
    · rename_i new
      split
      · exact ⟨new, _, List.mem_cons_self, rfl⟩
      · rename_i beyond
        rw [if_neg new, ← add_assoc] at within
        -- What is left beyond this index is positive, so an index is left there.
        have left : ∃ x ∈ probs, x.2 ∉ selected := by
          by_contra none
          push Not at none
          rw [totalProb_eq_zero none, add_zero] at within
          exact beyond within
        obtain ⟨new, x, mem, eq⟩ := ih within left
        exact ⟨new, x, List.mem_cons_of_mem _ mem, eq⟩

theorem exists_left {probs : List ℚ} (short : selected.length < probs.length) :
    ∃ x ∈ probs.zipIdx, x.2 ∉ selected := by
  by_contra none
  push Not at none
  have all : List.range probs.length ⊆ selected := by
    intro i mem
    have inside : i < probs.length := List.mem_range.mp mem
    apply none (probs[i], i)
    rw [List.mem_zipIdx_iff_getElem?]
    exact List.getElem?_eq_getElem inside
  have := (List.nodup_range.subperm all).length_le
  rw [List.length_range] at this
  omega

/-- Sampling draws different indices, one for each selection. -/
theorem selectedIndices_spec {probs : List ℚ} (nonneg : ∀ q ∈ probs, 0 ≤ q) {u : Nat → ℚ}
    (unit : ∀ i, u i ≤ 1) {n : Nat} (room : n ≤ probs.length) :
    (selectedIndices u probs.zipIdx n).Nodup ∧ (selectedIndices u probs.zipIdx n).length = n ∧
      ∀ i ∈ selectedIndices u probs.zipIdx n, i < probs.length := by
  induction n with
  | zero => exact ⟨List.nodup_nil, rfl, fun _ none => absurd none List.not_mem_nil⟩
  | succ n ih =>
    obtain ⟨nodup, length, bound⟩ := ih (Nat.le_of_succ_le room)
    rw [selectedIndices]
    generalize selectedIndices u probs.zipIdx n = selected at nodup length bound ⊢
    have left : ∃ x ∈ probs.zipIdx, x.2 ∉ selected := exists_left (by omega)
    have within : u n * totalProb selected probs.zipIdx ≤ 0 + totalProb selected probs.zipIdx := by
      rw [zero_add]
      apply mul_le_of_le_one_left _ (unit n)
      apply totalProb_nonneg
      intro x mem
      exact nonneg x.1 (List.fst_mem_of_mem_zipIdx mem)
    obtain ⟨new, x, mem, eq⟩ := selectedPathIdx_left within left
    refine ⟨nodup.append (List.nodup_singleton _) (by simpa using new), by simp [length], ?_⟩
    intro i mem'
    obtain old | rfl := List.mem_append.mp mem' |>.imp_right List.mem_singleton.mp
    · exact bound i old
    · rw [← eq]
      exact List.snd_lt_of_mem_zipIdx mem

end

theorem withProbs_nonneg (dc : DestCandidates) : ∀ q ∈ dc.withProbs.probs, 0 ≤ q := by
  intro q mem
  obtain ⟨p, -, rfl⟩ := List.mem_map.mp mem
  split
  · rename_i positive
    exact div_nonneg (one_div_nonneg.mpr positive.1.le) positive.2.le
  · exact one_div_nonneg.mpr (Nat.cast_nonneg _)

theorem selected_eq (dc : DestCandidates) (u : Nat → ℚ) :
    dc.withProbs.selected u =
      (selectedIndices u dc.withProbs.probs.zipIdx (min pathsPerDest dc.paths.length)).filterMap
        fun pathIdx => dc.paths[pathIdx]? := rfl

section
variable {dc : DestCandidates} {u : Nat → ℚ} (unit : ∀ i, u i ≤ 1)
include unit

theorem indices_spec (dc : DestCandidates) :
    let indices := selectedIndices u dc.withProbs.probs.zipIdx (min pathsPerDest dc.paths.length)
    indices.Nodup ∧ indices.length = min pathsPerDest dc.paths.length ∧
      ∀ i ∈ indices, i < dc.paths.length := by
  have size : dc.withProbs.probs.length = dc.paths.length := List.length_map _
  have spec := selectedIndices_spec (withProbs_nonneg dc) unit
    (n := min pathsPerDest dc.paths.length) (by rw [size]; exact min_le_right _ _)
  rwa [size] at spec

/-- As many candidates of a destination are selected as there are, up to two. -/
theorem length_selected :
    (dc.withProbs.selected u).length = min pathsPerDest dc.paths.length := by
  obtain ⟨-, length, bound⟩ := indices_spec unit dc
  rw [selected_eq, List.length_filterMap_eq_countP]
  refine (List.countP_eq_length.mpr fun i mem => ?_).trans length
  simpa using bound i mem

omit unit in
theorem mem_paths_of_selected {p : PathInfo} (mem : p ∈ dc.withProbs.selected u) :
    p ∈ dc.paths := by
  obtain ⟨i, -, atI⟩ := List.mem_filterMap.mp mem
  exact List.mem_of_getElem? atI

/-- For each destination as many different candidates are selected as there are, up to two. -/
theorem selected_spec (distinct : (dc.paths.map PathInfo.hops).Nodup) :
    ((dc.withProbs.selected u).map PathInfo.hops).Nodup ∧
      (dc.withProbs.selected u).length = min pathsPerDest dc.paths.length ∧
      ∀ p ∈ dc.withProbs.selected u, p ∈ dc.paths := by
  refine ⟨?_, length_selected unit, fun p => mem_paths_of_selected⟩
  obtain ⟨nodup, -⟩ := indices_spec unit dc
  rw [selected_eq, List.map_filterMap]
  apply nodup.filterMap
  intro i j hop atI atJ
  rw [← List.getElem?_map] at atI atJ
  obtain ⟨_, rfl⟩ := List.getElem?_eq_some_iff.mp atI
  obtain ⟨_, same⟩ := List.getElem?_eq_some_iff.mp atJ
  exact (distinct.getElem_inj_iff.mp same).symm

end

/-! ## The solver -/

theorem bestSolution_least (first : ScoredSolution) (rest : List ScoredSolution) :
    ONEWANSolver.bestSolution first rest ∈ first :: rest ∧
      ∀ sol ∈ first :: rest, (ONEWANSolver.bestSolution first rest).score ≤ sol.score := by
  induction rest generalizing first with
  | nil => simp [ONEWANSolver.bestSolution]
  | cons sol rest ih =>
    have step : ONEWANSolver.bestSolution first (sol :: rest) = ONEWANSolver.bestSolution
      (if sol.score < first.score then sol else first) rest := rfl
    rw [step]
    by_cases less : sol.score < first.score
    · obtain ⟨mem, least⟩ := ih sol
      rw [if_pos less]
      refine ⟨List.mem_cons_of_mem _ mem, List.forall_mem_cons.mpr ⟨?_, least⟩⟩
      exact (least sol List.mem_cons_self).trans less.le
    · obtain ⟨mem, least⟩ := ih first
      rw [if_neg less]
      obtain ⟨atFirst, atRest⟩ := List.forall_mem_cons.mp least
      refine ⟨?_, List.forall_mem_cons.mpr ⟨atFirst, List.forall_mem_cons.mpr ⟨?_, atRest⟩⟩⟩
      · obtain same | later := List.mem_cons.mp mem
        · rw [same]; exact List.mem_cons_self
        · exact List.mem_cons_of_mem _ (List.mem_cons_of_mem _ later)
      · exact atFirst.trans (not_lt.mp less)

namespace ONEWANSolver
variable {os : ONEWANSolver}

theorem solution_score (os : ONEWANSolver) (r : Rand) (allCandidates : List DestCandidates)
    (iter : Nat) : (os.solution r allCandidates iter).score =
      os.totalScore (os.solution r allCandidates iter).paths := rfl

theorem beamSearchSelection_least (os : ONEWANSolver) (r : Rand)
    (allCandidates : List DestCandidates) :
    (∃ iter < 100, os.beamSearchSelection r allCandidates =
        (os.solution r allCandidates iter).paths) ∧
      ∀ iter < 100, os.totalScore (os.beamSearchSelection r allCandidates) ≤
        os.totalScore (os.solution r allCandidates iter).paths := by
  have solutions : (List.range numIterations).map (os.solution r allCandidates) =
      os.solution r allCandidates 0 ::
        (List.range' 1 99).map (os.solution r allCandidates) := rfl
  have best : os.beamSearchSelection r allCandidates = (bestSolution
      (os.solution r allCandidates 0)
      ((List.range' 1 99).map (os.solution r allCandidates))).paths := by
    rw [beamSearchSelection, solutions]
  obtain ⟨mem, least⟩ := bestSolution_least (os.solution r allCandidates 0)
    ((List.range' 1 99).map (os.solution r allCandidates))
  rw [← solutions] at mem least
  obtain ⟨iter, inside, eq⟩ := List.mem_map.mp mem
  rw [← eq] at best least
  rw [best]
  refine ⟨⟨iter, List.mem_range.mp inside, rfl⟩, fun other small => ?_⟩
  have drawn : other ∈ List.range numIterations := List.mem_range.mpr small
  rw [← solution_score, ← solution_score]
  exact least _ (List.mem_map_of_mem drawn)

/-- Different candidates of a destination at a position of the list, as many as it has, up to
two. -/
def Selected (os : ONEWANSolver) (r : Rand) (start : String) (occurrence : String × Nat)
    (part : List PathInfo) : Prop :=
  let candidates := os.candidatePaths (r.perm occurrence.2) start occurrence.1
  (part.map PathInfo.hops).Nodup ∧ part.length = min 2 candidates.length ∧
    ∀ p ∈ part, p ∈ candidates

theorem solution_parts (one : OnePerPair os.edges) {r : Rand} {start : String}
    {ends : List String} {allCandidates : List DestCandidates}
    (h : os.generateCandidatePaths r start ends = .ok allCandidates) (iter : Nat) :
    ∃ parts, List.Forall₂ (Selected os r start) ends.zipIdx parts ∧
      parts.flatten = (os.solution r allCandidates iter).paths := by
  unfold generateCandidatePaths at h
  dsimp only at h
  split at h
  · cases h
  · obtain rfl := Except.ok.inj h
    rw [solution, List.flatMap_def]
    apply Parts.exists_parts (os.destCandidates r start) (R := fun dc part => ∃ u : Nat → ℚ,
      (∀ i, u i ≤ 1) ∧ part = dc.withProbs.selected u)
    · intro x skipped
      have none : os.candidatePaths (r.perm x.2) start x.1 = [] := by
        simpa [destCandidates] using skipped
      simp [Selected, none]
    · rintro x dc part found ⟨u, unit, rfl⟩
      simp only [destCandidates] at found
      split at found
      · cases found
      · obtain rfl := Option.some.inj found
        obtain ⟨distinct, -⟩ := candidatePaths_sound one (r.perm x.2) start x.1
        exact selected_spec unit distinct
    · rw [List.forall₂_map_right_iff]
      apply (Parts.forall₂_zipIdx _ 0).imp
      rintro dc ⟨dc', i⟩ rfl
      exact ⟨_, fun j => (r.float64 iter i j).2.2.le, rfl⟩

/-- **The ONE-WAN result is sound.** Every path returned is a simple path of input edges,
at most fifteen, from the start to a destination, with the latency of its edges. For each
occurrence of a destination as many different candidates are returned as it has, up to
two. The selection is one of the hundred drawn, and none of these has a smaller score. -/
theorem selection_sound (os : ONEWANSolver) (one : OnePerPair os.edges) (r : Rand)
    (start : String) (ends : List String) {paths : List PathInfo}
    (h : os.computingMulti r start ends = .ok paths) :
    (∀ p ∈ paths, ∃ end_ ∈ ends, Sound os.edges start end_ p.hops p.rawRTT) ∧
      (∃ parts, parts.flatten = paths ∧
        List.Forall₂ (Selected os r start) ends.zipIdx parts) ∧
      ∃ allCandidates, os.generateCandidatePaths r start ends = .ok allCandidates ∧
        (∃ iter < 100, paths = (os.solution r allCandidates iter).paths) ∧
        ∀ iter < 100, os.totalScore paths ≤
          os.totalScore (os.solution r allCandidates iter).paths := by
  unfold computingMulti at h
  split at h
  · cases h
  · cases candidates : os.generateCandidatePaths r start ends with
    | error err => rw [candidates] at h; cases h
    | ok allCandidates =>
      rw [candidates] at h
      obtain rfl := Except.ok.inj h
      have best := beamSearchSelection_least os r allCandidates
      obtain ⟨iter, small, eq⟩ := best.1
      obtain ⟨parts, each, flat⟩ := solution_parts one candidates iter
      rw [← eq] at flat
      refine ⟨?_, ⟨parts, flat, each⟩, allCandidates, rfl, best⟩
      intro p mem
      rw [← flat] at mem
      obtain ⟨part, inside, mem⟩ := List.mem_flatten.mp mem
      obtain ⟨x, occurs, selected⟩ := Parts.forall₂_mem_right each part inside
      obtain ⟨-, sound⟩ := candidatePaths_sound one (r.perm x.2) start x.1
      exact ⟨x.1, List.fst_mem_of_mem_zipIdx occurs, sound p (selected.2.2 p mem)⟩

/-- Two ways to `a`: over the direct edge, and faster over `b`. -/
def detour : List Edge :=
  [⟨"s", "a", 1, 0, 7⟩, ⟨"s", "b", 1, 2, 2⟩, ⟨"b", "a", 1, 0, 3⟩]

/-- Later attempts take the edges in the opposite order. -/
def alternating : Rand where
  perm _ attempt _ _ := if attempt = 0 then Equiv.refl _ else Fin.revPerm
  float64 iter _ _ := if iter = 0 then ⟨1 / 2, by norm_num⟩ else ⟨0, by norm_num⟩

theorem selection_sound_detour :
    ∃ paths, (newONEWANSolver detour 2).computingMulti alternating "s" ["a", "b"] = .ok paths ∧
      (∀ p ∈ paths, ∃ end_ ∈ ["a", "b"], Sound detour "s" end_ p.hops p.rawRTT) ∧
      ∃ parts, parts.flatten = paths ∧ List.Forall₂
        (Selected (newONEWANSolver detour 2) alternating "s") [("a", 0), ("b", 1)] parts := by
  have run : (newONEWANSolver detour 2).computingMulti alternating "s" ["a", "b"] =
      .ok [⟨["s", "b", "a"], 5, 5⟩, ⟨["s", "a"], 7, 7⟩, ⟨["s", "b"], 2, 2⟩] := by decide +kernel
  obtain ⟨sound, parts, -⟩ := selection_sound (newONEWANSolver detour 2)
    (by unfold OnePerPair; decide) alternating "s" ["a", "b"] run
  exact ⟨_, run, sound, parts⟩

end ONEWANSolver

end SkyAccel.Routing
