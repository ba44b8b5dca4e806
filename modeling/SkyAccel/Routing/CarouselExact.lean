import SkyAccel.Routing.CarouselSearch

/-!
# The depth-first search misses nothing

A `SimpleWay` is what the search looks for: a way over the hops offered that repeats no
node, has at most `maxHops` nodes and costs at most the bound. `Onward` is the part of
such a way that is still to be searched when the search stands at a node. With prices
that are not negative, nothing that the search prunes leads to a way it should return:
`dfs_searched` for the cheapest way that was not used before, `dfs_explored` for any way.
-/

namespace SkyAccel.Routing

open Strings (join)
open FlowOptimizationSolver (Found tryHop)

/-- A way to `t` over hops offered, with its nodes and its price. -/
inductive Way (d : FlowOptimizationSolver) (g : ResidualGraph) (t : String) :
    String → List String → ℚ → Prop
  | arrived : Way d g t t [t] 0
  | hop {u : String} {ei : EdgeInfo} {path : List String} {cost : ℚ} :
      ei ∈ d.offers g u → Way d g t ei.dst path cost → Way d g t u (u :: path) (ei.cost + cost)

structure SimpleWay (d : FlowOptimizationSolver) (g : ResidualGraph) (s t : String) (thetaL : ℚ)
    (path : List String) (cost : ℚ) : Prop where
  way : Way d g t s path cost
  nodup : path.Nodup
  size : path.length ≤ maxHops
  bound : cost ≤ thetaL

/-- A way from `u` on, for a search that has come to `u` over `path` at the price
`latency` and may visit `room` more nodes. -/
structure Onward (d : FlowOptimizationSolver) (g : ResidualGraph) (t : String) (thetaL : ℚ)
    (room : Nat) (path : List String) (u : String) (latency : ℚ) (rest : List String) (cost : ℚ) :
    Prop where
  way : Way d g t u rest cost
  nodup : (path ++ rest).Nodup
  size : rest.length ≤ room
  bound : latency + cost ≤ thetaL

section
variable {d : FlowOptimizationSolver} {g : ResidualGraph} {s t u : String} {thetaL latency cost : ℚ}
  {path rest : List String} {taken : List (String × EdgeInfo)} {room : Nat}

theorem Way.mem_first (h : Way d g t u path cost) : u ∈ path := by
  cases h with
  | arrived => exact List.mem_singleton_self t
  | hop _ _ => exact List.mem_cons_self

theorem Way.mem_last (h : Way d g t u path cost) : t ∈ path := by
  induction h with
  | arrived => exact List.mem_singleton_self t
  | hop _ _ ih => exact List.mem_cons_of_mem _ ih

/-- At the target there is nowhere left to go. -/
theorem Way.at_target (h : Way d g t t path cost) (nodup : path.Nodup) : path = [t] ∧ cost = 0 := by
  cases h with
  | arrived => exact ⟨rfl, rfl⟩
  | hop _ later => exact absurd later.mem_last (List.nodup_cons.mp nodup).1

theorem Way.cost_nonneg (nonneg : ∀ u, ∀ ei ∈ d.offers g u, 0 ≤ ei.cost)
    (h : Way d g t u path cost) : 0 ≤ cost := by
  induction h with
  | arrived => exact le_refl 0
  | hop offer _ ih => exact add_nonneg (nonneg _ _ offer) ih

/-- A trail to `u` and a way from there make a way. -/
theorem Trail.followed_by (trail : Trail d g thetaL s taken (path ++ [u]) latency)
    (way : Way d g t u rest cost) : Way d g t s (path ++ rest) (latency + cost) := by
  generalize whole : path ++ [u] = nodes at trail
  induction trail generalizing path u rest cost with
  | start =>
    obtain ⟨rfl, same⟩ := List.append_eq_singleton_iff.mp whole |>.resolve_right (by simp)
    obtain rfl := List.singleton_inj.mp same
    rw [zero_add]
    exact way
  | step _ offer _ _ ih =>
    obtain ⟨rfl, same⟩ := List.append_inj' whole rfl
    obtain rfl := List.singleton_inj.mp same
    have before := ih (.hop offer way) rfl
    rw [List.append_assoc, add_assoc]
    exact before

theorem dfsPathSearch_simpleWay {c : Choices} {usedPaths : List String} {optimize randomize : Bool}
    (h : d.dfsPathSearch c g s t thetaL usedPaths optimize randomize = some (path, latency)) :
    SimpleWay d g s t thetaL path latency := by
  obtain ⟨taken, trail, last, bound, size⟩ := dfsPathSearch_trail h
  obtain ⟨before, rfl⟩ := List.getLast?_eq_some_iff.mp last
  have way := trail.followed_by .arrived
  rw [add_zero] at way
  exact ⟨way, trail.nodup, size, bound⟩

/-! ## What is left to search -/

theorem Onward.not_mem (h : Onward d g t thetaL room path u latency rest cost) : u ∉ path :=
  fun mem => List.disjoint_of_nodup_append h.nodup mem h.way.mem_first

theorem Onward.room_pos (h : Onward d g t thetaL room path u latency rest cost) : 0 < room :=
  (List.length_pos_of_mem h.way.mem_first).trans_le h.size

theorem Onward.latency_le (nonneg : ∀ u, ∀ ei ∈ d.offers g u, 0 ≤ ei.cost)
    (h : Onward d g t thetaL room path u latency rest cost) : latency ≤ thetaL :=
  (le_add_of_nonneg_right (h.way.cost_nonneg nonneg)).trans h.bound

theorem Onward.at_target (h : Onward d g t thetaL room path t latency rest cost) :
    rest = [t] ∧ cost = 0 :=
  h.way.at_target (List.Nodup.of_append_right h.nodup)

/-- Away from the target, a way goes on over one of the hops offered. -/
theorem Onward.next_hop (h : Onward d g t thetaL (room + 1) path u latency rest cost)
    (away : u ≠ t) :
    ∃ ei ∈ d.offers g u, ∃ rest' cost', rest = u :: rest' ∧ cost = ei.cost + cost' ∧
      Onward d g t thetaL room (path ++ [u]) ei.dst (latency + ei.cost) rest' cost' := by
  obtain ⟨way, nodup, size, bound⟩ := h
  cases way with
  | arrived => exact absurd rfl away
  | @hop _ ei rest' cost' offer way =>
    refine ⟨ei, offer, rest', cost', rfl, rfl, way, ?_, Nat.le_of_succ_le_succ size, ?_⟩
    · rw [List.append_assoc]
      exact nodup
    · rw [add_assoc]
      exact bound

theorem mem_hops_iff {c : Choices} {n : Nat} {randomize : Bool} {ei : EdgeInfo} :
    ei ∈ (if randomize then shuffle c (n + 2) (d.getSortedEdges c n g u)
      else d.getSortedEdges c n g u) ↔ ei ∈ d.offers g u := by
  split
  · exact (shuffle_perm c _ _).mem_iff.trans d.mem_getSortedEdges
  · exact d.mem_getSortedEdges

end

/-! ## The cheapest way -/

section
variable (d : FlowOptimizationSolver) (g : ResidualGraph) (t : String) (thetaL : ℚ)
  (usedPaths : List String)

/-- What the variables hold while the search runs: a path that was not used before, or
the latency they start with. -/
structure Incumbent (st : Found) : Prop where
  first : st.bestPath = none → st.bestLatency = thetaL + 1
  unused : ∀ path ∈ st.bestPath, join path "->" ∉ usedPaths

/-- What a search from `u` does to the variables: it only improves them, and afterwards
no unused way from `u` on is cheaper than the path they hold. -/
structure Searched (room : Nat) (path : List String) (u : String) (latency : ℚ)
    (st st' : Found) : Prop where
  le : st'.bestLatency ≤ st.bestLatency
  incumbent : Incumbent thetaL usedPaths st → Incumbent thetaL usedPaths st'
  covers : ∀ rest cost, Onward d g t thetaL room path u latency rest cost →
    join (path ++ rest) "->" ∉ usedPaths → st'.bestLatency ≤ latency + cost

variable {d g t thetaL usedPaths}
variable {c : Choices} {randomize : Bool} {room : Nat} {path : List String} {u : String}
  {latency : ℚ} {st st' st'' : Found}

theorem Searched.of_none (none : ∀ rest cost, ¬ Onward d g t thetaL room path u latency rest cost) :
    Searched d g t thetaL usedPaths room path u latency st st :=
  ⟨le_refl _, id, fun rest cost way => absurd way (none rest cost)⟩

/-- A later search keeps what an earlier one has established. -/
theorem Searched.trans_le (h : Searched d g t thetaL usedPaths room path u latency st st')
    (le : st''.bestLatency ≤ st'.bestLatency)
    (incumbent : Incumbent thetaL usedPaths st' → Incumbent thetaL usedPaths st'') :
    Searched d g t thetaL usedPaths room path u latency st st'' :=
  ⟨le.trans h.le, fun now => incumbent (h.incumbent now),
    fun rest cost way unused => le.trans (h.covers rest cost way unused)⟩

/-- Arriving at the target. -/
theorem searched_target :
    Searched d g t thetaL usedPaths (room + 1) path t latency st
      (d.dfs c g t thetaL usedPaths true randomize (room + 1) t latency path st).2 := by
  rw [FlowOptimizationSolver.dfs, if_pos rfl]
  split
  · rw [if_pos rfl]
    split
    · rename_i better
      refine ⟨better.1.le, fun _ => ⟨fun none => (by cases none), ?_⟩, fun rest cost way _ => ?_⟩
      · rintro _ ⟨⟩
        exact better.2
      · rw [way.at_target.2, add_zero]
    · rename_i better
      refine ⟨le_refl _, id, fun rest cost way unused => ?_⟩
      obtain ⟨rfl, rfl⟩ := way.at_target
      rw [add_zero]
      exact not_lt.mp fun less => better ⟨less, unused⟩
  · rename_i exceeds
    apply Searched.of_none
    intro rest cost way
    obtain ⟨rfl, rfl⟩ := way.at_target
    exact exceeds (by simpa only [add_zero] using way.bound)

variable (nonneg : ∀ u, ∀ ei ∈ d.offers g u, 0 ≤ ei.cost)
include nonneg

/-- One turn of the loop: what is pruned leads to no way that is cheaper than the best. -/
theorem searched_tryHop {deeper : String → ℚ → Found → Bool × Found}
    (ih : ∀ v latency st, Searched d g t thetaL usedPaths room path v latency st
      (deeper v latency st).2) (latency : ℚ) (found : Bool × Found) (ei : EdgeInfo) :
    Searched d g t thetaL usedPaths room path ei.dst (latency + ei.cost) found.2
      (tryHop thetaL true latency path deeper found ei).2 := by
  unfold tryHop
  rw [if_neg (fun both => Bool.false_ne_true both.2.symm)]
  split
  · rename_i visited
    exact .of_none fun rest cost way => way.not_mem visited
  · split
    · rename_i worse
      refine ⟨le_refl _, id, fun rest cost way _ => worse.2.trans ?_⟩
      exact le_add_of_nonneg_right (way.way.cost_nonneg nonneg)
    · split
      · rename_i exceeds
        exact .of_none fun rest cost way => absurd (way.latency_le nonneg) (not_le.mpr exceeds)
      · exact ih ei.dst (latency + ei.cost) found.2

/-- The loop, hop by hop. -/
theorem searched_foldl {deeper : String → ℚ → Found → Bool × Found}
    (ih : ∀ v latency st, Searched d g t thetaL usedPaths room path v latency st
      (deeper v latency st).2) (latency : ℚ) (es : List EdgeInfo) (found : Bool × Found) :
    let found' := es.foldl (tryHop thetaL true latency path deeper) found
    found'.2.bestLatency ≤ found.2.bestLatency ∧
      (Incumbent thetaL usedPaths found.2 → Incumbent thetaL usedPaths found'.2) ∧
      ∀ ei ∈ es, ∀ rest cost, Onward d g t thetaL room path ei.dst (latency + ei.cost) rest cost →
        join (path ++ rest) "->" ∉ usedPaths →
          found'.2.bestLatency ≤ latency + ei.cost + cost := by
  induction es generalizing found with
  | nil => exact ⟨le_refl _, id, nofun⟩
  | cons first es loop =>
    have turn := searched_tryHop nonneg ih latency found first
    obtain ⟨le, incumbent, covers⟩ := loop (tryHop thetaL true latency path deeper found first)
    have both := turn.trans_le le incumbent
    refine ⟨both.le, both.incumbent, fun ei mem => ?_⟩
    obtain rfl | later := List.mem_cons.mp mem
    · exact both.covers
    · exact covers ei later

theorem dfs_searched :
    Searched d g t thetaL usedPaths room path u latency st
      (d.dfs c g t thetaL usedPaths true randomize room u latency path st).2 := by
  -- by induction on the room, as the search goes deeper
  induction room generalizing path u latency st with
  | zero =>
    apply Searched.of_none
    intro rest cost way
    exact way.room_pos.ne rfl
  | succ room ih =>
    by_cases arrived : u = t
    · rw [arrived]
      exact searched_target
    · rw [FlowOptimizationSolver.dfs, if_neg arrived]
      have deeper : ∀ v latency st, Searched d g t thetaL usedPaths room (path ++ [u]) v latency st
          (d.dfs c g t thetaL usedPaths true randomize room v latency (path ++ [u]) st).2 :=
        fun _ _ _ => ih
      obtain ⟨le, incumbent, covers⟩ := searched_foldl nonneg deeper latency
        (if randomize then shuffle c (st.draws + 2) (d.getSortedEdges c st.draws g u)
          else d.getSortedEdges c st.draws g u) (false, { st with draws := st.draws + 3 })
      refine ⟨le, fun now => incumbent ⟨now.first, now.unused⟩, fun rest cost way unused => ?_⟩
      obtain ⟨ei, offer, rest', cost', rfl, rfl, onward⟩ := way.next_hop arrived
      rw [← add_assoc]
      apply covers ei (mem_hops_iff.mpr offer) rest' cost' onward
      rw [List.append_assoc]
      exact unused

end

/-! ## Any way -/

/-- What a search does that stops at the first path: it has found one, or it leaves the
variables alone and nothing was there. -/
structure Explored (there : Prop) (st : Found) (found : Bool × Found) : Prop where
  stopped : found.1 = true → found.2.bestPath.isSome
  exhausted : found.1 = false → found.2.bestPath = st.bestPath ∧ ¬ there

section
variable {d : FlowOptimizationSolver} {g : ResidualGraph} {t : String} {thetaL latency : ℚ}
  {usedPaths : List String} {c : Choices} {randomize : Bool} {room : Nat} {path : List String}
  {u : String} {st : Found} {deeper : String → ℚ → Found → Bool × Found}

theorem Explored.of_none {there : Prop} (none : ¬ there) : Explored there st (false, st) :=
  ⟨nofun, fun _ => ⟨rfl, none⟩⟩

theorem explored_target :
    Explored (∃ rest cost, Onward d g t thetaL (room + 1) path t latency rest cost) st
      (d.dfs c g t thetaL usedPaths false randomize (room + 1) t latency path st) := by
  rw [FlowOptimizationSolver.dfs, if_pos rfl]
  split
  · rw [if_neg (by decide)]
    exact ⟨fun _ => rfl, fun missed => by cases missed⟩
  · rename_i exceeds
    apply Explored.of_none
    rintro ⟨rest, cost, way⟩
    obtain ⟨rfl, rfl⟩ := way.at_target
    exact exceeds (by simpa only [add_zero] using way.bound)

/-- Once a path is found, the loop is over. -/
theorem foldl_tryHop_found {found : Bool × Found} (stop : found.1 = true) (es : List EdgeInfo) :
    es.foldl (tryHop thetaL false latency path deeper) found = found := by
  induction es with
  | nil => rfl
  | cons ei es ih =>
    have skipped : tryHop thetaL false latency path deeper found ei = found := if_pos ⟨stop, rfl⟩
    rw [List.foldl_cons, skipped, ih]

variable (nonneg : ∀ u, ∀ ei ∈ d.offers g u, 0 ≤ ei.cost)
include nonneg

theorem explored_tryHop
    (ih : ∀ v latency st, Explored
      (∃ rest cost, Onward d g t thetaL room path v latency rest cost) st (deeper v latency st))
    (latency : ℚ) (st : Found) (ei : EdgeInfo) :
    Explored (∃ rest cost, Onward d g t thetaL room path ei.dst (latency + ei.cost) rest cost) st
      (tryHop thetaL false latency path deeper (false, st) ei) := by
  unfold tryHop
  rw [if_neg (fun both => Bool.false_ne_true both.1)]
  split
  · rename_i visited
    exact .of_none fun ⟨rest, cost, way⟩ => way.not_mem visited
  · rw [if_neg (fun both => Bool.false_ne_true both.1)]
    split
    · rename_i exceeds
      exact .of_none fun ⟨rest, cost, way⟩ => absurd (way.latency_le nonneg) (not_le.mpr exceeds)
    · exact ih ei.dst (latency + ei.cost) st

theorem explored_foldl
    (ih : ∀ v latency st, Explored
      (∃ rest cost, Onward d g t thetaL room path v latency rest cost) st (deeper v latency st))
    (latency : ℚ) (es : List EdgeInfo) (st : Found) :
    Explored (∃ ei ∈ es, ∃ rest cost,
        Onward d g t thetaL room path ei.dst (latency + ei.cost) rest cost) st
      (es.foldl (tryHop thetaL false latency path deeper) (false, st)) := by
  induction es generalizing st with
  | nil => exact .of_none fun ⟨_, mem, _⟩ => absurd mem List.not_mem_nil
  | cons first es loop =>
    have turn := explored_tryHop nonneg ih latency st first
    rw [List.foldl_cons]
    generalize tryHop thetaL false latency path deeper (false, st) first = found at turn
    obtain ⟨stop, now⟩ := found
    cases stop with
    | true =>
      rw [foldl_tryHop_found rfl]
      exact ⟨turn.stopped, nofun⟩
    | false =>
      have rest := loop now
      obtain ⟨same, nothing⟩ := turn.exhausted rfl
      refine ⟨rest.stopped, fun missed => ?_⟩
      obtain ⟨same', nothing'⟩ := rest.exhausted missed
      refine ⟨same'.trans same, ?_⟩
      rintro ⟨ei, mem, way⟩
      obtain rfl | later := List.mem_cons.mp mem
      · exact nothing way
      · exact nothing' ⟨ei, later, way⟩

theorem dfs_explored :
    Explored (∃ rest cost, Onward d g t thetaL room path u latency rest cost) st
      (d.dfs c g t thetaL usedPaths false randomize room u latency path st) := by
  induction room generalizing path u latency st with
  | zero =>
    apply Explored.of_none
    rintro ⟨rest, cost, way⟩
    exact way.room_pos.ne rfl
  | succ room ih =>
    by_cases arrived : u = t
    · rw [arrived]
      exact explored_target
    · rw [FlowOptimizationSolver.dfs, if_neg arrived]
      have deeper : ∀ v latency st, Explored
          (∃ rest cost, Onward d g t thetaL room (path ++ [u]) v latency rest cost) st
          (d.dfs c g t thetaL usedPaths false randomize room v latency (path ++ [u]) st) :=
        fun _ _ _ => ih
      have loop := explored_foldl nonneg deeper latency
        (if randomize then shuffle c (st.draws + 2) (d.getSortedEdges c st.draws g u)
          else d.getSortedEdges c st.draws g u) { st with draws := st.draws + 3 }
      refine ⟨loop.stopped, fun missed => ?_⟩
      obtain ⟨same, nothing⟩ := loop.exhausted missed
      refine ⟨same, ?_⟩
      rintro ⟨rest, cost, way⟩
      obtain ⟨ei, offer, rest', cost', -, -, onward⟩ := way.next_hop arrived
      exact nothing ⟨ei, mem_hops_iff.mpr offer, rest', cost', onward⟩

end

/-! ## Prices -/

section
variable {d : FlowOptimizationSolver} (latencies : ∀ e ∈ d.edges, 0 ≤ e.latency)
include latencies

theorem latencyMap_nonneg {key : String} {latency : ℚ} (h : d.latencyMap key = some latency) :
    0 ≤ latency := by
  refine List.foldlRecOn (motive := fun m : String → Option ℚ =>
    ∀ key latency, m key = some latency → 0 ≤ latency) d.edges _ ?_ ?_ key latency h
  · exact fun _ _ found => absurd found.symm (Option.some_ne_none _)
  intro m nonneg e mem key latency found
  rw [Function.update_apply] at found
  split at found
  · obtain rfl := Option.some.inj found
    exact latencies e mem
  · exact nonneg key latency found

/-- With edges whose latencies are not negative, no hop has a negative price. -/
theorem offers_nonneg (g : ResidualGraph) : ∀ u, ∀ ei ∈ d.offers g u, 0 ≤ ei.cost := by
  have penalty : ∀ banned : Bool, (0 : ℚ) ≤ if banned then 100 else 0 := by decide
  intro u ei mem
  obtain forward | backward := List.mem_append.mp mem
  · obtain ⟨ef, -, rfl⟩ := List.mem_map.mp forward
    apply add_nonneg _ (penalty ef.banned)
    unfold FlowOptimizationSolver.getEdgeLatency
    cases found : d.latencyMap (u ++ "->" ++ ef.dest) with
    | none => exact by decide +kernel
    | some latency => exact latencyMap_nonneg latencies found
  · obtain ⟨v, revEf, -, -, rfl⟩ := d.exists_of_mem_backwardEdges backward
    exact penalty _

end

/-! ## The search -/

section
variable {d : FlowOptimizationSolver} {g : ResidualGraph} {s t : String} {thetaL latency cost : ℚ}
  {usedPaths path : List String} {c : Choices} {randomize : Bool}

theorem SimpleWay.onward (h : SimpleWay d g s t thetaL path cost) :
    Onward d g t thetaL maxHops [] s 0 path cost :=
  ⟨h.way, h.nodup, h.size, by simpa only [zero_add] using h.bound⟩

variable (nonneg : ∀ u, ∀ ei ∈ d.offers g u, 0 ≤ ei.cost)
include nonneg

/-- The variables at the end of the search. -/
theorem dfs_incumbent :
    let st := (d.dfs c g t thetaL usedPaths true randomize maxHops s 0 []
      ⟨none, thetaL + 1, 0⟩).2
    Incumbent thetaL usedPaths st ∧
      ∀ path cost, SimpleWay d g s t thetaL path cost → join path "->" ∉ usedPaths →
        st.bestLatency ≤ cost := by
  intro st
  have search : Searched d g t thetaL usedPaths maxHops [] s 0 ⟨none, thetaL + 1, 0⟩ st :=
    dfs_searched nonneg
  refine ⟨search.incumbent ⟨fun _ => rfl, nofun⟩, fun path cost way unused => ?_⟩
  have le := search.covers path cost way.onward unused
  rwa [zero_add] at le

theorem dfsPathSearch_cheapest
    (h : d.dfsPathSearch c g s t thetaL usedPaths true randomize = some (path, latency)) :
    join path "->" ∉ usedPaths ∧
      ∀ path' cost, SimpleWay d g s t thetaL path' cost → join path' "->" ∉ usedPaths →
        latency ≤ cost := by
  unfold FlowOptimizationSolver.dfsPathSearch at h
  obtain ⟨best, found, same⟩ := Option.map_eq_some_iff.mp h
  obtain ⟨rfl, rfl⟩ := Prod.mk.inj same
  obtain ⟨incumbent, cheapest⟩ := dfs_incumbent nonneg
  exact ⟨incumbent.unused best found, cheapest⟩

theorem dfsPathSearch_none
    (h : d.dfsPathSearch c g s t thetaL usedPaths true randomize = none)
    (way : SimpleWay d g s t thetaL path cost) : join path "->" ∈ usedPaths := by
  unfold FlowOptimizationSolver.dfsPathSearch at h
  obtain ⟨incumbent, cheapest⟩ := dfs_incumbent nonneg
  by_contra unused
  have le := cheapest path cost way unused
  rw [incumbent.first (Option.map_eq_none_iff.mp h)] at le
  exact absurd (le.trans way.bound) (not_le.mpr (lt_add_one thetaL))

theorem dfsPathSearch_explored :
    (d.dfsPathSearch c g s t thetaL usedPaths false randomize).isSome ↔
      ∃ path cost, SimpleWay d g s t thetaL path cost := by
  have search : Explored (∃ rest cost, Onward d g t thetaL maxHops [] s 0 rest cost)
      ⟨none, thetaL + 1, 0⟩
      (d.dfs c g t thetaL usedPaths false randomize maxHops s 0 [] ⟨none, thetaL + 1, 0⟩) :=
    dfs_explored nonneg
  constructor
  · intro found
    obtain ⟨⟨path, latency⟩, result⟩ := Option.isSome_iff_exists.mp found
    exact ⟨path, latency, dfsPathSearch_simpleWay result⟩
  · rintro ⟨path, cost, way⟩
    rw [FlowOptimizationSolver.dfsPathSearch, Option.isSome_map]
    apply search.stopped
    by_contra missed
    exact (search.exhausted (Bool.eq_false_of_not_eq_true missed)).2 ⟨path, cost, way.onward⟩

end

/-- The search is exact. When it optimises, it returns a path exactly if there is a way
that was not used before, and the path is then a cheapest one; otherwise it returns a path
exactly if there is a way, and the path is one. -/
theorem dfsPathSearch_exact (d : FlowOptimizationSolver) (c : Choices) (g : ResidualGraph)
    (s t : String) (thetaL : ℚ) (usedPaths : List String) (randomize : Bool)
    (nonneg : ∀ u, ∀ ei ∈ d.offers g u, 0 ≤ ei.cost) :
    ((d.dfsPathSearch c g s t thetaL usedPaths true randomize).isSome ↔
      ∃ path cost, SimpleWay d g s t thetaL path cost ∧ join path "->" ∉ usedPaths) ∧
    (∀ path latency,
      d.dfsPathSearch c g s t thetaL usedPaths true randomize = some (path, latency) →
        SimpleWay d g s t thetaL path latency ∧ join path "->" ∉ usedPaths ∧
        ∀ path' cost, SimpleWay d g s t thetaL path' cost → join path' "->" ∉ usedPaths →
          latency ≤ cost) ∧
    ((d.dfsPathSearch c g s t thetaL usedPaths false randomize).isSome ↔
      ∃ path cost, SimpleWay d g s t thetaL path cost) ∧
    ∀ path latency,
      d.dfsPathSearch c g s t thetaL usedPaths false randomize = some (path, latency) →
        SimpleWay d g s t thetaL path latency := by
  refine ⟨⟨fun found => ?_, fun ⟨path, cost, way, unused⟩ => ?_⟩, fun path latency found => ?_,
    dfsPathSearch_explored nonneg, fun path latency => dfsPathSearch_simpleWay⟩
  · obtain ⟨⟨path, latency⟩, result⟩ := Option.isSome_iff_exists.mp found
    exact ⟨path, latency, dfsPathSearch_simpleWay result, (dfsPathSearch_cheapest nonneg result).1⟩
  · by_contra missed
    exact unused (dfsPathSearch_none nonneg (Option.not_isSome_iff_eq_none.mp missed) way)
  · exact ⟨dfsPathSearch_simpleWay found, dfsPathSearch_cheapest nonneg found⟩

/-- Two ways from A to C, the shorter of which was used before. -/
def twoWays : FlowOptimizationSolver :=
  { newFlowOptimizationSolver [⟨"A", "C", 0, 0, 5⟩, ⟨"A", "B", 0, 0, 4⟩, ⟨"B", "C", 0, 0, 4⟩] with
    capacity := 10 }

theorem dfsPathSearch_twoWays :
    twoWays.dfsPathSearch (fun _ _ => 1) twoWays.buildResidualGraphWithCapacity "A" "C" 10
        ["A->C"] true false = some (["A", "B", "C"], 8) ∧
      ∀ path' cost,
        SimpleWay twoWays twoWays.buildResidualGraphWithCapacity "A" "C" 10 path' cost →
          join path' "->" ∉ ["A->C"] → 8 ≤ cost := by
  have found : twoWays.dfsPathSearch (fun _ _ => 1) twoWays.buildResidualGraphWithCapacity
      "A" "C" 10 ["A->C"] true false = some (["A", "B", "C"], 8) := by decide +kernel
  have law := dfsPathSearch_exact twoWays (fun _ _ => 1) twoWays.buildResidualGraphWithCapacity
    "A" "C" 10 ["A->C"] false (offers_nonneg (by decide +kernel) _)
  exact ⟨found, (law.2.1 _ _ found).2.2⟩

end SkyAccel.Routing
