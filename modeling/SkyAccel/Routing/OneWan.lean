import SkyAccel.Lib.Sort
import SkyAccel.Lib.Shuffle
import SkyAccel.Lib.Dict
import SkyAccel.Routing.Carousel

/-!
# The ONE-WAN solver

`onewan-multi.go`: for each destination a randomised depth-first search collects candidate
paths, then one hundred selections of at most two candidates a destination are drawn and
the one of the smallest score is returned. Latencies, probabilities and scores are exact
rationals, and the random source is a parameter (`Rand`), so that a result about the
solver holds for whatever is drawn.
-/

namespace SkyAccel.Routing

open Strings (join)

structure ONEWANSolver where
  edges : List Edge
  alpha : ℚ
  maxPaths : Int

def newONEWANSolver (edges : List Edge) (maxPaths : Int) : ONEWANSolver where
  edges := edges
  alpha := 1
  maxPaths := maxPaths

/-- What `math/rand` gives, by the place it is asked for: the orders in one attempt at one
destination, and the number in one iteration for one destination and one selection. -/
structure Rand where
  perm (destination attempt : Nat) : Choices
  float64 (iter destination selectIdx : Nat) : {q : ℚ // 0 ≤ q ∧ q < 1}

/-! ## The search -/

/-- The variables that the closure of `dfsRandomPath` shares. -/
structure Dfs where
  visited : List String
  hops : List String
  totalLatency : ℚ
  draws : Nat
  deriving DecidableEq

namespace Dfs

def enter (st : Dfs) (node : String) : Dfs :=
  { st with visited := node :: st.visited, hops := st.hops ++ [node] }

def backtrack (st : Dfs) (node : String) : Dfs :=
  { st with visited := st.visited.erase node, hops := st.hops.dropLast }

end Dfs

/-- The loop over the neighbours, which ends with the first that the search succeeds from. -/
def tryNeighbors (deeper : String → Dfs → Bool × Dfs) : List Edge → Dfs → Bool × Dfs
  | [], st => (false, st)
  | edge :: rest, st =>
    if edge.destinationIp ∈ st.visited then tryNeighbors deeper rest st
    else
      match deeper edge.destinationIp st with
      | (true, st) => (true, { st with totalLatency := st.totalLatency + edge.latency })
      | (false, st) => tryNeighbors deeper rest st

/-- The closure of `dfsRandomPath`. The first argument is `maxHops + 1 - depth`: at zero the
depth is over the limit. -/
def dfs (c : Choices) (graph_ : Adjacency) (target : String) : Nat → String → Dfs → Bool × Dfs
  | 0, _, st => (false, st)
  | room + 1, node, st =>
    let st := st.enter node
    if node = target then (true, st)
    else
      let neighbors := outgoing graph_ node
      if neighbors = [] then (false, st.backtrack node)
      else
        match tryNeighbors (dfs c graph_ target room) (shuffle c st.draws neighbors)
            { st with draws := st.draws + 1 } with
        | (true, st) => (true, st)
        | (false, st) => (false, st.backtrack node)

def dfsRandomPath (c : Choices) (current target : String) (graph_ : Adjacency) (maxHops : Nat) :
    Option Path :=
  match dfs c graph_ target (maxHops + 1) current ⟨[], [], 0, 0⟩ with
  | (true, st) => some ⟨st.hops, st.totalLatency, (st.totalLatency : ℚ)⟩
  | (false, _) => none

/-- The variables of `randomDFSPaths`. -/
structure Collected where
  paths : List Path
  usedPaths : List String
  deriving DecidableEq

/-- What one attempt of `randomDFSPaths` does with the path it finds, if any. -/
def Collected.add (u : Collected) : Option Path → Collected
  | none => u
  | some path =>
    let pathStr := join path.hops "->"
    if pathStr ∈ u.usedPaths then u else ⟨u.paths ++ [path], u.usedPaths ++ [pathStr]⟩

/-- `const maxAttempts` and the local `const maxHops`. -/
def maxAttempts : Nat := 100

def maxDepth : Nat := 15

/-- The attempts of `randomDFSPaths`, which stop at `maxPaths` paths. -/
def attempts (c : Nat → Choices) (start end_ : String) (graph_ : Adjacency) (maxPaths : Int) :
    Collected :=
  (List.range maxAttempts).foldl (fun (u : Collected) attempt =>
    if (u.paths.length : Int) < maxPaths then
      u.add (dfsRandomPath (c attempt) start end_ graph_ maxDepth)
    else u) ⟨[], []⟩

def randomDFSPaths (c : Nat → Choices) (start end_ : String) (graph_ : Adjacency)
    (maxPaths : Int) : List Path :=
  Sort.exchangeSort Path.cost (attempts c start end_ graph_ maxPaths).paths

/-- The same loop as in `removeConsecutiveDuplicates`. -/
def deduplicateHops (hops : List String) : List String := removeConsecutiveDuplicates hops

def filterPathsByHops (paths : List PathInfo) (maxHops : Nat) : List PathInfo :=
  paths.filter fun path => path.hops.length - 1 ≤ maxHops

/-! ## Candidates -/

structure DestCandidates where
  end_ : String
  paths : List PathInfo
  probs : List ℚ
  deriving DecidableEq

/-- A path of the search with clean hops. Its `rawRTT` is a sum of latencies, hence finite. -/
def Path.info (path : Path) : PathInfo :=
  ⟨deduplicateHops path.hops, path.cost, path.rawRTT.untopD 0⟩

namespace ONEWANSolver
variable (os : ONEWANSolver)

/-- The candidate paths for `end_`, as one pass of the loop of `generateCandidatePaths`
collects them. There are none for a destination that the loop skips. -/
def candidatePaths (c : Nat → Choices) (start end_ : String) : List PathInfo :=
  if isNode os.edges end_ = false then []
  else
    let paths := randomDFSPaths c start end_ (adjacency os.edges) os.maxPaths
    let pathInfos := (paths.map Path.info).filter fun p => p.hops.length - 1 ≤ maxHops
    let pathInfos := filterPathsByHops pathInfos maxHops
    if (pathInfos.length : Int) > os.maxPaths then pathInfos.take os.maxPaths.toNat
    else pathInfos

/-- What the loop appends for a destination and its position in the list. -/
def destCandidates (r : Rand) (start : String) (x : String × Nat) : Option DestCandidates :=
  let pathInfos := os.candidatePaths (r.perm x.2) start x.1
  if pathInfos = [] then none else some ⟨x.1, pathInfos, []⟩

def generateCandidatePaths (r : Rand) (start : String) (ends : List String) :
    Except String (List DestCandidates) :=
  let allCandidates := ends.zipIdx.filterMap (os.destCandidates r start)
  if allCandidates = [] then
    .error ("no paths found from " ++ start ++ " to any of [" ++ join ends " " ++ "]")
  else .ok allCandidates

end ONEWANSolver

/-! ## Selections -/

def numIterations : Nat := 100

def pathsPerDest : Nat := 2

def loadWeight : ℚ := 5

def totalInverseLatency (paths : List PathInfo) : ℚ :=
  paths.foldl (fun total p => if p.rawRTT > 0 then total + 1 / p.rawRTT else total) 0

/-- The probabilities by inverse latency that `beamSearchSelection` starts with. -/
def DestCandidates.withProbs (dc : DestCandidates) : DestCandidates :=
  { dc with probs := dc.paths.map fun p =>
      if p.rawRTT > 0 ∧ totalInverseLatency dc.paths > 0 then
        (1 / p.rawRTT) / totalInverseLatency dc.paths
      else 1 / dc.paths.length }

/-- The first loop of one selection, over the probabilities and their indices. -/
def totalProb (selectedIndices : List Nat) (probs : List (ℚ × Nat)) : ℚ :=
  probs.foldl (fun total x => if x.2 ∈ selectedIndices then total else total + x.1) 0

/-- The second loop: the first index left whose cumulative probability reaches `r`, and
zero after the last. -/
def selectedPathIdx (selectedIndices : List Nat) (r : ℚ) : ℚ → List (ℚ × Nat) → Nat
  | _, [] => 0
  | cumulative, (prob, pathIdx) :: rest =>
    if pathIdx ∈ selectedIndices then selectedPathIdx selectedIndices r cumulative rest
    else if r ≤ cumulative + prob then pathIdx
    else selectedPathIdx selectedIndices r (cumulative + prob) rest

/-- The indices after the given number of selections, with a random number for each. -/
def selectedIndices (u : Nat → ℚ) (probs : List (ℚ × Nat)) : Nat → List Nat
  | 0 => []
  | selectIdx + 1 =>
    let selected := selectedIndices u probs selectIdx
    selected ++ [selectedPathIdx selected (u selectIdx * totalProb selected probs) 0 probs]

/-- The paths selected for one destination. An index outside of the paths would end the
program and gives no path here. -/
def DestCandidates.selected (dc : DestCandidates) (u : Nat → ℚ) : List PathInfo :=
  (selectedIndices u dc.probs.zipIdx (min pathsPerDest dc.paths.length)).filterMap
    fun pathIdx => dc.paths[pathIdx]?

def edgeKeys (path : PathInfo) : List String :=
  (hops path.hops).map fun hop => hop.1 ++ "->" ++ hop.2

def edgeUsage (selectedPaths : List PathInfo) : Dict String ℚ :=
  (selectedPaths.flatMap edgeKeys).foldl
    (fun usage key => usage.insert key ((usage.lookup key).getD 0 + 1)) ∅

structure ScoredSolution where
  paths : List PathInfo
  score : ℚ
  deriving DecidableEq

namespace ONEWANSolver
variable (os : ONEWANSolver)

def edgeLoadMap : Dict String ℚ :=
  os.edges.foldl (fun loads e => loads.insert (e.sourceIp ++ "->" ++ e.destinationIp) e.load) ∅

/-- The penalty of an edge of the selection, once for each edge. -/
def addPenalty (usage : Dict String ℚ) (total : ℚ × List String) (edgeKey : String) :
    ℚ × List String :=
  if edgeKey ∈ total.2 then total
  else
    let count := (usage.lookup edgeKey).getD 0
    let realLoad := (os.edgeLoadMap.lookup edgeKey).getD 0
    (total.1 + count * count * max realLoad 1 * loadWeight, edgeKey :: total.2)

def totalScore (selectedPaths : List PathInfo) : ℚ :=
  (selectedPaths.foldl (fun total path =>
    (edgeKeys path).foldl (os.addPenalty (edgeUsage selectedPaths))
      (total.1 + path.rawRTT, total.2)) ((0 : ℚ), [])).1

/-- One iteration of the beam search. -/
def solution (r : Rand) (allCandidates : List DestCandidates) (iter : Nat) : ScoredSolution :=
  let selectedPaths := allCandidates.zipIdx.flatMap fun (dc, i) =>
    dc.withProbs.selected fun selectIdx => r.float64 iter i selectIdx
  ⟨selectedPaths, os.totalScore selectedPaths⟩

/-- The first of the smallest scores. -/
def bestSolution (first : ScoredSolution) (rest : List ScoredSolution) : ScoredSolution :=
  rest.foldl (fun best sol => if sol.score < best.score then sol else best) first

def beamSearchSelection (r : Rand) (allCandidates : List DestCandidates) : List PathInfo :=
  match (List.range numIterations).map (os.solution r allCandidates) with
  | [] => []
  | first :: rest => (bestSolution first rest).paths

def computingMulti (r : Rand) (start : String) (ends : List String) :
    Except String (List PathInfo) :=
  if isNode os.edges start = false then .error ("start node " ++ start ++ " not found")
  else (os.generateCandidatePaths r start ends).map (os.beamSearchSelection r)

end ONEWANSolver

end SkyAccel.Routing
