import SkyAccel.Lib.Dict
import SkyAccel.Lib.Run
import SkyAccel.Lib.Shuffle
import SkyAccel.Routing.KShortest

/-!
# The carousel solver

`core-domain/carousel-greed.go`: paths from one source to several destinations, found by
depth-first search in a residual graph and improved by taking the oldest path out and
searching for another one. Numbers are exact rationals. The random choices, the orders in
which maps are listed included, are draws of permutations.

`ComputingMulti` is a machine. A state is reached at the head of each turn of its loops,
and once more inside the turn of the last loop, before the search for a new path. One
step is the body from there to the next such point.
-/

namespace SkyAccel.Routing

open Strings (join)

/-- `const maxHops` of `onewan-multi.go`. -/
def maxHops : Nat := 30

/-- `math.MaxFloat64`. -/
def maxFloat64 : ℚ := (2 ^ 53 - 1) * 2 ^ 971

structure FlowOptimizationSolver where
  edges : List Edge
  alpha : ℚ
  beta : ℚ
  capacity : ℚ
  flowsPerDest : Nat
  tu : ℚ
  uhot : ℚ
  epsilon : ℚ
  thetaLMap : Dict String ℚ
  kspK : Int

def newFlowOptimizationSolver (edges : List Edge) : FlowOptimizationSolver where
  edges := edges
  alpha := 2
  beta := 1 / 2
  capacity := 0
  flowsPerDest := 2
  tu := 60
  uhot := 0
  epsilon := 1 / 1000
  thetaLMap := ∅
  kspK := 3

/-- An entry of `map[string]map[string]*EdgeFlow`, with its two keys. -/
structure EdgeFlow where
  source : String
  dest : String
  flow : ℚ
  cap : ℚ
  thetaA : ℚ
  effCap : ℚ
  banned : Bool
  residual : ℚ
  deriving DecidableEq

/-- The entries of the map, one for each pair of keys. -/
abbrev ResidualGraph := List EdgeFlow

def EdgeFlow.updateResidual (ef : EdgeFlow) : EdgeFlow :=
  { ef with residual := ef.effCap - ef.flow }

def EdgeFlow.getReverseResidual (ef : EdgeFlow) : ℚ := ef.flow

/-- The entry is `g[u][v]`. -/
def EdgeFlow.joins (ef : EdgeFlow) (u v : String) : Bool := ef.source == u && ef.dest == v

/-- Change the entry `g[from][to]`, if it is there. -/
def ResidualGraph.modify (g : ResidualGraph) (f : EdgeFlow → EdgeFlow) (hop : String × String) :
    ResidualGraph :=
  g.map fun ef => if ef.joins hop.1 hop.2 then f ef else ef

/-- The pairs of consecutive nodes of a path. -/
def hops (path : List String) : List (String × String) := path.zip path.tail

structure PathWithInfo where
  path : List String
  pathStr : String
  dest : String
  latency : ℚ
  deriving DecidableEq

/-- The fields of `edgeInfo` that are read. -/
structure EdgeInfo where
  dst : String
  cost : ℚ
  isRev : Bool
  deriving DecidableEq

namespace FlowOptimizationSolver
variable (d : FlowOptimizationSolver)

/-! ## Parameters -/

def nodes : List String := (d.edges.flatMap fun e => [e.sourceIp, e.destinationIp]).dedup

def latencyMap : String → Option ℚ :=
  d.edges.foldl (fun m e =>
    Function.update m (e.sourceIp ++ "->" ++ e.destinationIp) (some e.latency)) fun _ => none

def getEdgeLatency (source dest : String) : ℚ :=
  (d.latencyMap (source ++ "->" ++ dest)).getD maxFloat64

def computeThetaA (cpuLoad : ℚ) : ℚ :=
  let numerator := if cpuLoad - d.tu < 0 then 0 else cpuLoad - d.tu
  let denominator := if d.uhot - d.tu < d.epsilon then d.epsilon else d.uhot - d.tu
  let uPrime := if 1 < numerator / denominator then 1 else numerator / denominator
  1 - uPrime

def computePercentile (percentile : ℚ) : ℚ :=
  let loads := Sort.exchangeSort id (d.edges.map Edge.load)
  let index := percentile / 100 * ((loads.length : ℚ) - 1)
  let lowerIndex := index.floor.toNat
  let fraction := index - lowerIndex
  match loads[lowerIndex]?, loads[lowerIndex + 1]? with
  | some lower, some upper => lower + fraction * (upper - lower)
  | _, _ => loads.getLastD 0

/-- The latency bound of one destination. `none` means that the search ran out of fuel. -/
def computeThetaL (start dest : String) (fuel : Nat) : Option ℚ :=
  match (newKShortestSolverWithLatency d.edges d.kspK true).computing start dest fuel with
  | none => none
  | some (.error _) => some 100
  | some (.ok []) => some 100
  | some (.ok paths) =>
    some ((paths.map PathInfo.rtt).sum / paths.length * (3 / 2))

def computeThetaLForDestinations (start : String) (ends : List String) (fuel : Nat) :
    Option (Dict String ℚ) :=
  ends.foldlM (fun thetaLMap dest =>
    (d.computeThetaL start dest fuel).map fun thetaL => thetaLMap.insert dest thetaL) d.thetaLMap

def thetaL (dest : String) : ℚ := (d.thetaLMap.lookup dest).getD 100

/-! ## The residual graph -/

def newEdgeFlow (e : Edge) : EdgeFlow :=
  let thetaA := d.computeThetaA e.load
  let effCap := thetaA * d.capacity
  { source := e.sourceIp
    dest := e.destinationIp
    flow := 0
    cap := d.capacity
    thetaA := thetaA
    effCap := effCap
    banned := false
    residual := effCap }

/-- A later edge of the same pair takes the place of an earlier one. -/
def buildResidualGraphWithCapacity : ResidualGraph :=
  d.edges.foldl (fun g e =>
    g.filter (fun ef => !ef.joins e.sourceIp e.destinationIp) ++ [d.newEdgeFlow e]) []

def forwardEdges (g : ResidualGraph) (u : String) : List EdgeInfo :=
  (g.filter fun ef => ef.source == u && decide (0 < ef.residual)).map fun ef =>
    ⟨ef.dest, d.getEdgeLatency u ef.dest + if ef.banned then 100 else 0, false⟩

def backwardEdges (g : ResidualGraph) (u : String) : List EdgeInfo :=
  d.nodes.filterMap fun v =>
    if v = u then none
    else
      match g.find? (·.joins v u) with
      | none => none
      | some revEf =>
        if 0 < revEf.getReverseResidual then some ⟨v, if revEf.banned then 100 else 0, true⟩
        else none

/-- The two loops list their maps in the orders of the draws `n` and `n + 1`. -/
def getSortedEdges (c : Choices) (n : Nat) (g : ResidualGraph) (u : String) : List EdgeInfo :=
  Sort.exchangeSort EdgeInfo.cost
    (shuffle c n (d.forwardEdges g u) ++ shuffle c (n + 1) (d.backwardEdges g u))

/-! ## The search for a path -/

/-- The variables that the recursive function shares, and the draws so far. -/
structure Found where
  bestPath : Option (List String)
  bestLatency : ℚ
  draws : Nat

/-- One turn of the loop over the hops from the last of the nodes visited, which searches
deeper unless the hop is pruned. In exploration a path found ends the loop. -/
def tryHop (thetaL : ℚ) (optimize : Bool) (currentLatency : ℚ) (visited : List String)
    (deeper : String → ℚ → Found → Bool × Found) (found : Bool × Found) (ei : EdgeInfo) :
    Bool × Found :=
  if found.1 = true ∧ optimize = false then found
  else if ei.dst ∈ visited then found
  else if optimize = true ∧ found.2.bestLatency ≤ currentLatency + ei.cost then found
  else if thetaL < currentLatency + ei.cost then found
  else
    let result := deeper ei.dst (currentLatency + ei.cost) found.2
    (found.1 || result.1, result.2)

/-- `dfs`, with `path` the nodes before `u`, which are the ones visited. The first
argument is `maxHops` minus their number. -/
def dfs (c : Choices) (g : ResidualGraph) (t : String) (thetaL : ℚ) (usedPaths : List String)
    (optimize randomize : Bool) : Nat → String → ℚ → List String → Found → Bool × Found
  | 0, _, _, _, st => (false, st)
  | room + 1, u, currentLatency, path, st =>
    if u = t then
      if currentLatency ≤ thetaL then
        if optimize then
          if currentLatency < st.bestLatency ∧ join (path ++ [u]) "->" ∉ usedPaths then
            (false, { st with bestPath := some (path ++ [u]), bestLatency := currentLatency })
          else (false, st)
        else (true, { st with bestPath := some (path ++ [u]), bestLatency := currentLatency })
      else (false, st)
    else
      let sortedEdges := d.getSortedEdges c st.draws g u
      let sortedEdges := if randomize then shuffle c (st.draws + 2) sortedEdges else sortedEdges
      sortedEdges.foldl (tryHop thetaL optimize currentLatency (path ++ [u]) fun v latency st =>
        dfs c g t thetaL usedPaths optimize randomize room v latency (path ++ [u]) st)
          (false, { st with draws := st.draws + 3 })

def dfsPathSearch (c : Choices) (g : ResidualGraph) (s t : String) (thetaL : ℚ)
    (usedPaths : List String) (optimize randomize : Bool) : Option (List String × ℚ) :=
  let st := (d.dfs c g t thetaL usedPaths optimize randomize maxHops s 0 []
    ⟨none, thetaL + 1, 0⟩).2
  st.bestPath.map fun path => (path, st.bestLatency)

def findFeasiblePathWithLatency (c : Choices) (g : ResidualGraph) (s t : String)
    (usedPaths : List String) (attempt : Nat) : Option PathWithInfo :=
  if g.any (·.source == s) then
    let found :=
      if attempt ≤ 1 then d.dfsPathSearch c g s t (d.thetaL t) usedPaths true false
      else d.dfsPathSearch c g s t (d.thetaL t) usedPaths false true
    found.map fun x => ⟨x.1, join x.1 "|", t, x.2⟩
  else none

end FlowOptimizationSolver

/-! ## Flow on paths -/

def allocateFlow (g : ResidualGraph) (path : List String) (flow : ℚ) : ResidualGraph :=
  (hops path).foldl
    (ResidualGraph.modify · fun ef => { ef with flow := ef.flow + flow }.updateResidual) g

def releaseFlow (g : ResidualGraph) (path : List String) (flow : ℚ) : ResidualGraph :=
  (hops path).foldl
    (ResidualGraph.modify · fun ef =>
      { ef with flow := if ef.flow - flow < 0 then 0 else ef.flow - flow }.updateResidual) g

def banEdge (g : ResidualGraph) (hop : String × String) : ResidualGraph :=
  ResidualGraph.modify g (fun ef => { ef with banned := true }) hop

def banPathEdges (g : ResidualGraph) (path : List String) : ResidualGraph :=
  (hops path).foldl banEdge g

def unbanAllEdges (g : ResidualGraph) : ResidualGraph :=
  g.map fun ef => { ef with banned := false }

/-- The congestion that one hop adds to the objective. -/
def congestion (g : ResidualGraph) (hop : String × String) : ℚ :=
  match g.find? (·.joins hop.1 hop.2) with
  | some ef => if 0 < ef.effCap then 1 - ef.residual / ef.effCap else 0
  | none => 0

def objective (lst : List PathWithInfo) (g : ResidualGraph) : ℚ :=
  if lst = [] then 0
  else
    let used := lst.flatMap fun pi => hops pi.path
    let edgeKeys := used.map fun hop => hop.1 ++ "->" ++ hop.2
    let totalLatency := (lst.map PathWithInfo.latency).sum
    let totalCongestion := (used.map (congestion g)).sum
    let diversityScore := (edgeKeys.dedup.map fun key => 1 / (edgeKeys.count key : ℚ)).sum
    (lst.length : ℚ) * 10 + diversityScore * 1 - totalLatency * (1 / 10) - totalCongestion * 1

/-! ## Frequencies -/

structure PathAccumulator where
  paths : Dict String PathWithInfo
  freq : Dict String Nat

def PathAccumulator.addPath (pa : PathAccumulator) (pi : PathWithInfo) : PathAccumulator where
  paths := pa.paths.insert pi.pathStr pi
  freq := pa.freq.insert pi.pathStr ((pa.freq.lookup pi.pathStr).getD 0 + 1)

/-- The map is listed in the order of draw 0. -/
def PathAccumulator.getMostFrequent (pa : PathAccumulator) (c : Choices) : Option PathWithInfo :=
  ((shuffle c 0 pa.freq.entries).foldl (fun best entry =>
    if best.1 < entry.2 then (entry.2, pa.paths.lookup entry.1) else best) (0, none)).2

/-! ## The machine -/

/-- Where a state stands: in the loops over the destinations that are left and the paths
found for the first of them, in the removal of paths, at the head of the last loop or
inside it before the search, or at the end. -/
inductive Phase
  | searching (ends : List String) (i attempts : Nat)
  | removing (i : Nat)
  | iterating (i : Nat)
  | exploring (i : Nat)
  | done
  | failed (err : String)
  deriving DecidableEq

/-- The variables of `ComputingMulti`. -/
structure Multi where
  graph : ResidualGraph
  allPaths : List PathWithInfo
  destFlowCount : String → Int
  usedPaths : List String
  pathAccumulator : PathAccumulator
  bestPaths : List PathWithInfo
  bestScore : ℚ
  initialSize : Nat
  phase : Phase

/-- What `ComputingMulti` has fixed when it builds the residual graph. -/
structure Job where
  d : FlowOptimizationSolver
  start : String
  validEnds : List String

/-- `ComputingMulti` up to the residual graph. -/
def prepare (edges : List Edge) (start : String) (ends : List String) (fuel : Nat) :
    Option (Except String Job) :=
  let d := newFlowOptimizationSolver edges
  if ends = [] then some (.error "no destinations provided")
  else if isNode edges start = false then
    some (.error ("start node " ++ start ++ " not found in graph"))
  else
    let validEnds := ends.filter (isNode edges)
    if validEnds = [] then
      some (.error ("no valid destinations found in graph from " ++ start))
    else
      let d := { d with
        capacity := ((validEnds.length * d.flowsPerDest : Nat) : ℚ)
        uhot := d.computePercentile 90 }
      (d.computeThetaLForDestinations start validEnds fuel).map fun thetaLMap =>
        .ok ⟨{ d with thetaLMap := thetaLMap }, start, validEnds⟩

namespace Multi

def init (job : Job) : Multi where
  graph := job.d.buildResidualGraphWithCapacity
  allPaths := []
  destFlowCount := fun _ => 0
  usedPaths := []
  pathAccumulator := ⟨∅, ∅⟩
  bestPaths := []
  bestScore := 0
  initialSize := 0
  phase := .searching job.validEnds 0 0

/-- A path found is kept, and a unit of flow allocated on it. -/
def addPath (s : Multi) (pi : PathWithInfo) : Multi :=
  { s with
    allPaths := s.allPaths ++ [pi]
    usedPaths := join pi.path "->" :: s.usedPaths
    destFlowCount := Function.update s.destFlowCount pi.dest (s.destFlowCount pi.dest + 1)
    graph := allocateFlow s.graph pi.path 1 }

/-- The oldest path is given up, with its flow. -/
def removeOldest (s : Multi) (pi : PathWithInfo) (rest : List PathWithInfo) : Multi :=
  { s with
    allPaths := rest
    usedPaths := s.usedPaths.filter (· ≠ join pi.path "->")
    destFlowCount := Function.update s.destFlowCount pi.dest (s.destFlowCount pi.dest - 1)
    graph := releaseFlow s.graph pi.path 1 }

/-- The end of the search: the paths found are the first solution. -/
def firstSolution (s : Multi) : Multi :=
  { s with
    pathAccumulator := s.allPaths.foldl PathAccumulator.addPath s.pathAccumulator
    bestPaths := s.allPaths
    bestScore := objective s.allPaths s.graph
    initialSize := s.allPaths.length
    phase := .removing 0 }

/-- The end of a turn of the last loop: bans are lifted, and a better solution is kept. -/
def updateBest (s : Multi) : Multi :=
  let s := { s with graph := unbanAllEdges s.graph }
  if s.allPaths ≠ [] ∧ s.bestScore < objective s.allPaths s.graph then
    { s with bestPaths := s.allPaths, bestScore := objective s.allPaths s.graph }
  else s

end Multi

/-- The orders drawn in one step, for each of its searches. -/
abbrev Draws := Nat → Choices

section
variable (job : Job)

/-- The loop over the shuffled destinations, up to the first path that is new. -/
def findNew (r : Draws) (s : Multi) (i : Nat) : Nat → List String → Option PathWithInfo
  | _, [] => none
  | j, dest :: ends =>
    if (job.d.flowsPerDest : Int) ≤ s.destFlowCount dest then findNew r s i (j + 1) ends
    else
      match job.d.findFeasiblePathWithLatency (r j) s.graph job.start dest s.usedPaths (i + 1) with
      | none => findNew r s i (j + 1) ends
      | some pi =>
        if join pi.path "->" ∈ s.usedPaths then findNew r s i (j + 1) ends else some pi

namespace Multi
variable (s : Multi)

/-- A turn of the search loop for `dest`. -/
def search (r : Draws) (dest : String) (ends : List String) (i attempts : Nat) : Multi :=
  let nextDest := { s with phase := .searching ends 0 0 }
  if job.d.flowsPerDest ≤ i then nextDest
  else if job.d.flowsPerDest * 10 < attempts + 1 then nextDest
  else
    match job.d.findFeasiblePathWithLatency (r 0) s.graph job.start dest s.usedPaths
        (attempts + 1) with
    | none => nextDest
    | some pi =>
      if join pi.path "->" ∈ s.usedPaths then
        { s with phase := .searching (dest :: ends) i (attempts + 1) }
      else { s.addPath pi with phase := .searching (dest :: ends) (i + 1) (attempts + 1) }

/-- The first half of a turn of the last loop: the oldest path is removed, and the edges of
the most frequent path and the first edge of the oldest are banned. -/
def dropOldest (r : Draws) (pi : PathWithInfo) (rest : List PathWithInfo) : Multi :=
  let s := s.removeOldest pi rest
  let graph := match s.pathAccumulator.getMostFrequent (r 0) with
    | some freqPathInfo => banPathEdges s.graph freqPathInfo.path
    | none => s.graph
  let graph := match hops pi.path with
    | first :: _ => banEdge graph first
    | [] => graph
  { s with graph := graph }

/-- The second half: a new path for one of the destinations in random order. -/
def explore (r : Draws) (i : Nat) : Multi :=
  let shuffledEnds := shuffle (r 0) 0 job.validEnds
  let s := match findNew job r s i 1 shuffledEnds with
    | some pi => { s.addPath pi with pathAccumulator := s.pathAccumulator.addPath pi }
    | none => s
  { s.updateBest with phase := .iterating (i + 1) }

/-- One step, with the orders drawn in it. There is none from the end. -/
def next (s : Multi) (r : Draws) : Option Multi :=
  match s.phase with
  | .searching (dest :: ends) i attempts => some (s.search job r dest ends i attempts)
  | .searching [] _ _ =>
    if s.allPaths = [] then
      some { s with
        phase := .failed ("no feasible path found from " ++ job.start ++ " to any destination") }
    else some s.firstSolution
  | .removing i =>
    match s.allPaths with
    | pi :: rest =>
      if i < (job.d.beta * s.initialSize).floor.toNat then
        some { s.removeOldest pi rest with phase := .removing (i + 1) }
      else some { s with phase := .iterating 0 }
    | [] => some { s with phase := .iterating 0 }
  | .iterating i =>
    match s.allPaths with
    | pi :: rest =>
      if i < (job.d.alpha * s.initialSize).floor.toNat then
        some { s.dropOldest r pi rest with phase := .exploring i }
      else some { s with phase := .done }
    | [] => some { s with phase := .done }
  | .exploring i => some (s.explore job r i)
  | .done | .failed _ => none

/-- What `ComputingMulti` returns in the end. -/
def result : List PathInfo := s.bestPaths.map fun pi => ⟨pi.path, pi.latency, pi.latency⟩

end Multi

end

end SkyAccel.Routing
