import SkyAccel.Routing.CarouselSearch

/-!
# The steps of the carousel solver

What one step of `ComputingMulti` can do (`step_of_next`) and, as far as paths and flows go
(`next_elim`): keep them all, add a path that a search has found, or remove the oldest path.
`Searches` is a condition on the hops of the paths that the next step may find.
-/

namespace SkyAccel.Routing

open Strings (join)

/-! ## Steps -/

/-- The destinations that the next step searches a path to. -/
def targets (job : Job) (s : Multi) : List String :=
  match s.phase with
  | .searching (dest :: _) i attempts =>
    if i < job.d.flowsPerDest ∧ attempts < job.d.flowsPerDest * 10 then [dest] else []
  | .exploring _ =>
    job.validEnds.filter fun dest => s.destFlowCount dest < (job.d.flowsPerDest : Int)
  | _ => []

/-- A search of the next step finds this path, which is not in use. -/
structure Finds (job : Job) (s : Multi) (pi : PathWithInfo) : Prop where
  target : pi.dest ∈ targets job s
  named : pi.pathStr = join pi.path "|"
  unused : join pi.path "->" ∉ s.usedPaths
  feasible : ∃ taken, Feasible job.d s.graph job.start pi.dest taken pi.path pi.latency

/-- The states have the same paths and, but for bans, the same graph, and the second has
the best paths of the first or all its paths. -/
structure Alike (s s' : Multi) : Prop where
  graph : unbanAllEdges s'.graph = unbanAllEdges s.graph
  allPaths : s'.allPaths = s.allPaths
  usedPaths : s'.usedPaths = s.usedPaths
  bestPaths : s'.bestPaths = s.bestPaths ∨ s'.bestPaths = s.allPaths

theorem unban_banEdge (g : ResidualGraph) (hop : String × String) :
    unbanAllEdges (banEdge g hop) = unbanAllEdges g := by
  simp only [unbanAllEdges, banEdge, ResidualGraph.modify, List.map_map]
  apply List.map_congr_left
  intro ef _
  simp only [Function.comp_apply]
  split
  · rfl
  · rfl

theorem unban_banPathEdges (g : ResidualGraph) (path : List String) :
    unbanAllEdges (banPathEdges g path) = unbanAllEdges g := by
  unfold banPathEdges
  induction hops path generalizing g with
  | nil => rfl
  | cons hop rest ih => rw [List.foldl_cons, ih, unban_banEdge]

theorem unban_unban (g : ResidualGraph) :
    unbanAllEdges (unbanAllEdges g) = unbanAllEdges g := by
  simp only [unbanAllEdges, List.map_map]
  rfl

section
variable {job : Job} {s s' : Multi} {r : Draws}

theorem findNew_finds {i j : Nat} {ends : List String} {pi : PathWithInfo}
    (phase : s.phase = .exploring i) (valid : ∀ dest ∈ ends, dest ∈ job.validEnds)
    (h : findNew job r s i j ends = some pi) : Finds job s pi := by
  induction ends generalizing j with
  | nil => cases h
  | cons dest ends ih =>
    have later := fun found => ih (j := j + 1)
      (fun dest mem => valid dest (List.mem_cons_of_mem _ mem)) found
    unfold findNew at h
    split at h
    · exact later h
    · rename_i room
      split at h
      · exact later h
      · rename_i found
        split at h
        · exact later h
        · rename_i unused
          obtain rfl := Option.some.inj h
          obtain ⟨rfl, named, feasible⟩ := findFeasiblePathWithLatency_feasible found
          constructor
          case target =>
            simp only [targets, phase, List.mem_filter, decide_eq_true_eq]
            exact ⟨valid _ List.mem_cons_self, not_le.mp room⟩
          case named => exact named
          case unused => exact unused
          case feasible => exact feasible

theorem alike_updateBest (s : Multi) : Alike s s.updateBest := by
  unfold Multi.updateBest
  simp only
  split
  · exact ⟨unban_unban _, rfl, rfl, .inr rfl⟩
  · exact ⟨unban_unban _, rfl, rfl, .inl rfl⟩

theorem alike_dropOldest (s : Multi) (r : Draws) (pi : PathWithInfo) (rest : List PathWithInfo) :
    Alike (s.removeOldest pi rest) (s.dropOldest r pi rest) := by
  refine ⟨?_, rfl, rfl, .inl rfl⟩
  unfold Multi.dropOldest
  simp only
  split
  · rw [unban_banEdge]
    split
    · exact unban_banPathEdges _ _
    · rfl
  · split
    · exact unban_banPathEdges _ _
    · rfl

/-- The steps, one constructor for each way through the body of a loop. -/
inductive Multi.Step (job : Job) (s : Multi) : Multi → Prop
  | skip {dest : String} {ends : List String} {i attempts : Nat} :
      s.phase = .searching (dest :: ends) i attempts →
      Multi.Step job s { s with phase := .searching ends 0 0 }
  | again {dest : String} {ends : List String} {i attempts : Nat} :
      s.phase = .searching (dest :: ends) i attempts →
      Multi.Step job s { s with phase := .searching (dest :: ends) i (attempts + 1) }
  | find {pi : PathWithInfo} {ends : List String} {i attempts : Nat} :
      s.phase = .searching (pi.dest :: ends) i attempts → i < job.d.flowsPerDest →
      Finds job s pi → Multi.Step job s
        { s.addPath pi with phase := .searching (pi.dest :: ends) (i + 1) (attempts + 1) }
  | fail {i attempts : Nat} (err : String) : s.phase = .searching [] i attempts →
      s.allPaths = [] → Multi.Step job s { s with phase := .failed err }
  | first {i attempts : Nat} : s.phase = .searching [] i attempts → s.allPaths ≠ [] →
      Multi.Step job s s.firstSolution
  | remove {i : Nat} {pi : PathWithInfo} {rest : List PathWithInfo} : s.phase = .removing i →
      s.allPaths = pi :: rest →
      Multi.Step job s { s.removeOldest pi rest with phase := .removing (i + 1) }
  | iterate {i : Nat} : s.phase = .removing i →
      (s.allPaths ≠ [] → (job.d.beta * s.initialSize).floor.toNat ≤ i) →
      Multi.Step job s { s with phase := .iterating 0 }
  | drop {i : Nat} {pi : PathWithInfo} {rest : List PathWithInfo} (r : Draws) :
      s.phase = .iterating i → s.allPaths = pi :: rest →
      Multi.Step job s { s.dropOldest r pi rest with phase := .exploring i }
  | finish {i : Nat} : s.phase = .iterating i → Multi.Step job s { s with phase := .done }
  | stay {i : Nat} : s.phase = .exploring i →
      Multi.Step job s { s.updateBest with phase := .iterating (i + 1) }
  | explore {i : Nat} {pi : PathWithInfo} : s.phase = .exploring i → Finds job s pi →
      Multi.Step job s
        { Multi.updateBest { s.addPath pi with
            pathAccumulator := s.pathAccumulator.addPath pi } with
          phase := .iterating (i + 1) }

theorem step_of_next (move : s.next job r = some s') : Multi.Step job s s' := by
  unfold Multi.next at move
  split at move
  · -- a turn of the search loop
    rename_i dest ends i attempts phase
    obtain rfl := Option.some.inj move
    unfold Multi.search
    simp only
    split
    · exact .skip phase
    · rename_i few
      split
      · exact .skip phase
      · rename_i more
        split
        · exact .skip phase
        · rename_i pi found
          split
          · exact .again phase
          · rename_i unused
            obtain ⟨rfl, named, feasible⟩ := findFeasiblePathWithLatency_feasible found
            refine .find phase (not_le.mp few) ⟨?_, named, unused, feasible⟩
            have turn : i < job.d.flowsPerDest ∧ attempts < job.d.flowsPerDest * 10 := by omega
            simp only [targets, phase, if_pos turn, List.mem_singleton]
  · rename_i phase
    split at move
    · rename_i none
      obtain rfl := Option.some.inj move
      exact .fail _ phase none
    · rename_i some
      obtain rfl := Option.some.inj move
      exact .first phase some
  · rename_i phase
    split at move
    · rename_i paths
      split at move
      · obtain rfl := Option.some.inj move
        exact .remove phase paths
      · rename_i enough
        obtain rfl := Option.some.inj move
        exact .iterate phase fun _ => not_lt.mp enough
    · rename_i none
      obtain rfl := Option.some.inj move
      exact .iterate phase fun some => absurd none some
  · rename_i phase
    split at move
    · rename_i paths
      split at move
      · obtain rfl := Option.some.inj move
        exact .drop r phase paths
      · obtain rfl := Option.some.inj move
        exact .finish phase
    · obtain rfl := Option.some.inj move
      exact .finish phase
  · rename_i i phase
    obtain rfl := Option.some.inj move
    unfold Multi.explore
    simp only
    split
    · rename_i pi found
      apply Multi.Step.explore phase
      apply findNew_finds phase _ found
      exact fun dest mem => (shuffle_perm _ _ _).mem_iff.mp mem
    · exact .stay phase
  · cases move
  · cases move

/-- Every step leads to a state like the one before, or like that with a path added that
a search found, or like that with the oldest path removed. -/
theorem next_cases (move : s.next job r = some s') :
    Alike s s' ∨ (∃ pi, Finds job s pi ∧ Alike (s.addPath pi) s') ∨
      ∃ pi rest, s.allPaths = pi :: rest ∧ Alike (s.removeOldest pi rest) s' := by
  cases step_of_next move with
  | skip | again | fail | iterate | finish => exact .inl ⟨rfl, rfl, rfl, .inl rfl⟩
  | first => exact .inl ⟨rfl, rfl, rfl, .inr rfl⟩
  | @find pi _ _ _ _ _ finds => exact .inr (.inl ⟨pi, finds, rfl, rfl, rfl, .inl rfl⟩)
  | @remove _ pi rest _ paths => exact .inr (.inr ⟨pi, rest, paths, rfl, rfl, rfl, .inl rfl⟩)
  | @drop _ pi rest r _ paths =>
    have last := alike_dropOldest s r pi rest
    exact .inr (.inr ⟨pi, rest, paths, last.graph, last.allPaths, last.usedPaths, last.bestPaths⟩)
  | stay =>
    have last := alike_updateBest s
    exact .inl ⟨last.graph, last.allPaths, last.usedPaths, last.bestPaths⟩
  | @explore _ pi _ finds =>
    have last := alike_updateBest
      { s.addPath pi with pathAccumulator := s.pathAccumulator.addPath pi }
    exact .inr (.inl ⟨pi, finds, last.graph, last.allPaths, last.usedPaths, last.bestPaths⟩)

/-- What the three kinds of steps keep, every step keeps. -/
theorem next_elim {P : Multi → Prop} (move : s.next job r = some s') (h : P s)
    (alike : ∀ s s', Alike s s' → P s → P s') (add : ∀ pi, Finds job s pi → P (s.addPath pi))
    (remove : ∀ pi rest, s.allPaths = pi :: rest → P (s.removeOldest pi rest)) : P s' := by
  obtain same | ⟨pi, finds, same⟩ | ⟨pi, rest, paths, same⟩ := next_cases move
  · exact alike s s' same h
  · exact alike _ s' same (add pi finds)
  · exact alike _ s' same (remove pi rest paths)

/-! ## Conditions on the searches -/

/-- Every hop of every path that is not in use and that the next step's searches may find
meets `ok`. -/
def Searches (job : Job) (ok : ResidualGraph → String → EdgeInfo → Prop) (s : Multi) : Prop :=
  ∀ dest ∈ targets job s, ∀ taken path latency,
    Feasible job.d s.graph job.start dest taken path latency → join path "->" ∉ s.usedPaths →
      ∀ x ∈ taken, ok s.graph x.1 x.2

/-- The paths that a search may find are listed. -/
instance (job : Job) (ok : ResidualGraph → String → EdgeInfo → Prop)
    [∀ g u ei, Decidable (ok g u ei)] (s : Multi) : Decidable (Searches job ok s) :=
  decidable_of_iff (∀ dest ∈ targets job s, ∀ x ∈ job.d.feasibles s.graph job.start dest,
      join x.nodes "->" ∉ s.usedPaths → ∀ hop ∈ x.taken, ok s.graph hop.1 hop.2) <| by
    constructor
    · intro h dest target taken path latency feasible unused
      obtain ⟨x, listed, rfl, rfl, rfl⟩ := feasible_iff.mp feasible
      exact h dest target x listed unused
    · intro h dest target x listed unused
      exact h dest target _ _ _ (feasible_iff.mpr ⟨x, listed, rfl, rfl, rfl⟩) unused

theorem Searches.taken {ok : ResidualGraph → String → EdgeInfo → Prop} (h : Searches job ok s)
    {pi : PathWithInfo} (finds : Finds job s pi) :
    ∃ taken, Feasible job.d s.graph job.start pi.dest taken pi.path pi.latency ∧
      ∀ x ∈ taken, ok s.graph x.1 x.2 := by
  obtain ⟨taken, feasible⟩ := finds.feasible
  exact ⟨taken, feasible, h pi.dest finds.target taken _ _ feasible finds.unused⟩

end

/-! ## Trials -/

/-- Every map is listed and every slice shuffled in the order it has. -/
def inOrder : Draws := fun _ _ _ => Equiv.refl _

/-- Only draw `n` turns its list around. -/
def turning (n : Nat) : Draws := fun _ m _ => if m = n then Fin.revPerm else Equiv.refl _

section
variable (edges : List Edge) (start : String) (ends : List String) (fuel : Nat)
  (ok : Job → Multi → Prop) [∀ job s, Decidable (ok job s)] (rs : List Draws)

/-- The job and the state that draws lead to, if every step meets the condition. -/
def trial : Option (Job × Multi) :=
  match prepare edges start ends fuel with
  | some (.ok job) =>
    (rs.foldlM (checked (Multi.next job) fun s _ => ok job s) (.init job)).map (job, ·)
  | _ => none

variable {edges start ends fuel}

theorem exists_of_trial {P : Job → Multi → Prop}
    (h : ∃ x ∈ trial edges start ends fuel ok rs, P x.1 x.2) :
    ∃ job s, prepare edges start ends fuel = some (.ok job) ∧
      Run (Moves (Multi.next job)) (fun s _ => ok job s) (.init job) s ∧ P job s := by
  obtain ⟨⟨job, s⟩, reached, holds⟩ := h
  unfold trial at reached
  split at reached
  · rename_i prepared
    obtain ⟨_, steps, same⟩ := Option.map_eq_some_iff.mp reached
    obtain ⟨rfl, rfl⟩ := Prod.mk.inj same
    exact ⟨_, _, prepared, Run.of_checked steps, holds⟩
  · cases reached

end

end SkyAccel.Routing
