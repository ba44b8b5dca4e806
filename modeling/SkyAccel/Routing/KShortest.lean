import SkyAccel.Lib.Sort
import SkyAccel.Lib.Strings
import SkyAccel.Routing.Graph

/-!
# The k-shortest solver

`core-domain/k-shortest.go` as it computes, with costs read as exact rationals
and `math.Inf(1)` as `⊤`. A Go map that is only read by key is a function that
answers the zero value outside its keys; the adjacency map, whose keys are also
tested and listed, is an `AList`. Loops without a bound of their own take fuel,
and `none` means that the fuel ran out.
-/

namespace SkyAccel.Routing

open Strings (join split)

structure KShortestSolver where
  edges : List Edge
  alpha : ℚ
  k : Int
  useLatency : Bool
  deriving DecidableEq

def newKShortestSolverWithLatency (edges : List Edge) (k : Int) (useLatency : Bool) :
    KShortestSolver where
  edges := edges
  alpha := 1
  k := if k ≤ 0 then 5 else k
  useLatency := useLatency

def newKShortestSolver (edges : List Edge) (k : Int) : KShortestSolver :=
  newKShortestSolverWithLatency edges k false

structure Path where
  hops : List String
  cost : ℚ
  rawRTT : WithTop ℚ
  deriving DecidableEq

structure PQNode where
  node : String
  cost : ℚ
  rawRTT : WithTop ℚ
  deriving DecidableEq

abbrev PriorityQueue := List PQNode

/-- The heap interface of the queue: `Less` compares costs. -/
abbrev byCost : Heap.Interface PriorityQueue PQNode := Heap.slice PQNode.cost

namespace KShortestSolver
variable (ks : KShortestSolver)

/-- What one edge adds to the cost of a path. -/
def weight (e : Edge) : ℚ :=
  if ks.useLatency then e.latency * ks.alpha else e.edgeWeight * ks.alpha

end KShortestSolver

/-! ## Helpers on hop lists -/

/-- Whether a later hop repeats an earlier one, with the hops `seen` so far. -/
def repeats (seen : List String) : List String → Bool
  | [] => false
  | hop :: hops => if hop ∈ seen then true else repeats (hop :: seen) hops

def hasDuplicateNodes (hops : List String) : Bool := repeats [] hops

/-- The hops that differ from the one before, where `last` stands before the list. -/
def changesAfter (last : String) : List String → List String
  | [] => []
  | hop :: hops => if hop ≠ last then hop :: changesAfter hop hops else changesAfter hop hops

def removeConsecutiveDuplicates : List String → List String
  | [] => []
  | hop :: hops => hop :: changesAfter hop hops

def hasConsecutiveDuplicates : List String → Bool
  | a :: b :: hops => a == b || hasConsecutiveDuplicates (b :: hops)
  | _ => false

def isInPath (node : String) (path : List String) : Bool := path.any (· == node)

/-- The shorter of the two lists is a beginning of the longer. -/
def pathsSharePrefix (path1 path2 : List String) : Bool :=
  if path1.length < path2.length then path1.isPrefixOf path2 else path2.isPrefixOf path1

def isPathInQueue (path : Path) (pq : PriorityQueue) : Bool :=
  pq.any fun item => item.node == join path.hops "->"

def isPathInList (path : Path) (list : List Path) : Bool :=
  list.any fun p => join p.hops "->" == join path.hops "->"

/-- Add up a measure over the first edge found between consecutive hops. -/
def sumHops (f : Edge → ℚ) (g : Adjacency) : List String → ℚ
  | source :: next :: path =>
    ((outgoing g source).find? fun e => e.destinationIp == next).elim 0 f +
      sumHops f g (next :: path)
  | _ => 0

def KShortestSolver.calculatePathCost (ks : KShortestSolver) (path : List String)
    (g : Adjacency) : ℚ := sumHops ks.weight g path

def calculatePathRTT (path : List String) (g : Adjacency) : ℚ := sumHops Edge.latency g path

/-! ## The search for one path -/

structure Search where
  dist : String → WithTop ℚ
  prev : String → String
  rawRTT : String → WithTop ℚ
  pq : PriorityQueue

/-- The keys of the map and the destinations of its edges. -/
def hasNode (g : Adjacency) (v : String) : Bool :=
  g.entries.any fun x => x.1 == v || x.2.any fun e => e.destinationIp == v

/-- The maps before the loop. A node outside the graph reads as 0. -/
def Search.start (g : Adjacency) (start : String) : Search where
  dist := Function.update (fun v => if hasNode g v then ⊤ else 0) start 0
  prev := fun _ => ""
  rawRTT := Function.update (fun v => if hasNode g v then ⊤ else 0) start 0
  pq := Heap.push byCost [] ⟨start, 0, 0⟩

/-- The walk back from `node` along `prev` until the empty name. -/
def buildPath (prev : String → String) : Nat → String → List String → Option (List String)
  | 0, _, _ => none
  | fuel + 1, node, path =>
    if node = "" then some path else buildPath prev fuel (prev node) (node :: path)

namespace KShortestSolver
variable (ks : KShortestSolver)

/-- One turn of the loop over the edges of `currNode`. -/
def relax (currNode : String) (currCost : ℚ) (forbiddenNodes forbiddenEdges : String → Bool)
    (s : Search) (e : Edge) : Search :=
  if forbiddenNodes e.destinationIp then s
  else if forbiddenEdges (currNode ++ "->" ++ e.destinationIp) then s
  else
    let nextNode := e.destinationIp
    let newCost := currCost + ks.weight e
    let newRTT := s.rawRTT currNode + e.latency
    if (newCost : WithTop ℚ) < s.dist nextNode then
      { dist := Function.update s.dist nextNode newCost
        rawRTT := Function.update s.rawRTT nextNode newRTT
        prev := Function.update s.prev nextNode currNode
        pq := Heap.push byCost s.pq ⟨nextNode, newCost, 0⟩ }
    else s

/-- What one turn of the search loop does. -/
inductive Turn
  | exhausted
  | stale (s : Search)
  | reached (s : Search) (cost : ℚ)
  | cutOff (s : Search) (u : PQNode)
  | relaxed (s : Search) (u : PQNode)

/-- One turn: pop, skip a stale entry, stop at the destination, skip the
neighbours once the destination has been discovered, else relax them. -/
def turn (dest : String) (g : Adjacency) (forbiddenNodes forbiddenEdges : String → Bool)
    (s : Search) : Turn :=
  match Heap.pop byCost s.pq with
  | none => .exhausted
  | some (u, pq) =>
    let s := { s with pq := pq }
    if s.dist u.node < (u.cost : WithTop ℚ) then .stale s
    else if u.node = dest then .reached s u.cost
    else if s.dist dest ≠ ⊤ then .cutOff s u
    else .relaxed ((outgoing g u.node).foldl
      (ks.relax u.node u.cost forbiddenNodes forbiddenEdges) s) u

def searchLoop (start dest : String) (g : Adjacency)
    (forbiddenNodes forbiddenEdges : String → Bool) (pathFuel : Nat) :
    Nat → Search → Option (Except String Path)
  | 0, _ => none
  | fuel + 1, s =>
    match ks.turn dest g forbiddenNodes forbiddenEdges s with
    | .exhausted => some (.error ("no path found from " ++ start ++ " to " ++ dest))
    | .stale s | .cutOff s _ | .relaxed s _ =>
      searchLoop start dest g forbiddenNodes forbiddenEdges pathFuel fuel s
    | .reached s cost => do
      let path ← buildPath s.prev pathFuel dest []
      let path := if hasConsecutiveDuplicates path then removeConsecutiveDuplicates path else path
      some (.ok ⟨path, cost, s.rawRTT dest⟩)

def findShortestPath (start dest : String) (g : Adjacency)
    (forbiddenNodes forbiddenEdges : String → Bool) (fuel : Nat) : Option (Except String Path) :=
  ks.searchLoop start dest g forbiddenNodes forbiddenEdges fuel fuel (.start g start)

/-! ## Yen's algorithm -/

/-- Drop the edge to the next hop of a found path that begins with the root path. -/
def dropNext (rootPath : List String) (j : Nat) (es : List Edge) (path : Path) : List Edge :=
  if j < path.hops.length ∧ pathsSharePrefix path.hops rootPath = true then
    match path.hops[j + 1]? with
    | some target => es.filter fun e => e.destinationIp != target
    | none => es
  else es

/-- The edges of the spur node that stay for its search: none into the root
path, and none that a found path with the same root takes. -/
def spurEdges (A : List Path) (rootPath : List String) (j : Nat) (out : List Edge) : List Edge :=
  A.foldl (dropNext rootPath j) (out.filter fun e => !isInPath e.destinationIp rootPath)

structure Candidates where
  graphCopy : Adjacency
  B : PriorityQueue

/-- The path made of the root path and a spur path. The cost of the root path is
read in the graph as it is during the search. -/
def completePath (rootPath : List String) (spurPath : Path) (g : Adjacency) : Path :=
  let rootCost := ks.calculatePathCost rootPath g
  let rootRTT := calculatePathRTT rootPath g
  let mergedHops := rootPath.dropLast ++ spurPath.hops
  ⟨removeConsecutiveDuplicates mergedHops, rootCost + spurPath.cost, rootRTT + spurPath.rawRTT⟩

/-- Queue a complete path, unless it repeats a node or is known already. -/
def addCandidate (A : List Path) (completePath : Path) (B : PriorityQueue) : PriorityQueue :=
  if hasDuplicateNodes completePath.hops = false ∧ isPathInList completePath A = false ∧
      isPathInQueue completePath B = false then
    Heap.push byCost B ⟨join completePath.hops "->", completePath.cost, completePath.rawRTT⟩
  else B

/-- The body of the two inner loops, for position `j` of a found path. A spur
path with duplicates leaves by `continue`, without restoring the edges. -/
def spur (dest : String) (fuel : Nat) (A : List Path) (c : Candidates)
    (pos : List String × Nat) : Option Candidates :=
  let j := pos.2
  match pos.1[j]? with
  | none => some c
  | some spurNode =>
    let rootPath := pos.1.take (j + 1)
    match c.graphCopy.lookup spurNode with
    | none => some c
    | some originalEdges =>
      let forbiddenNodes := fun node => isInPath node rootPath.dropLast
      let g := c.graphCopy.insert spurNode (spurEdges A rootPath j originalEdges)
      let restored := g.insert spurNode originalEdges
      if spurNode = dest then some { c with graphCopy := restored }
      else if isInPath dest rootPath then some { c with graphCopy := restored }
      else
        match ks.findShortestPath spurNode dest g forbiddenNodes (fun _ => false) fuel with
        | none => none
        | some (.error _) => some { c with graphCopy := restored }
        | some (.ok spurPath) =>
          if hasDuplicateNodes spurPath.hops then some { c with graphCopy := g }
          else some ⟨restored, addCandidate A (ks.completePath rootPath spurPath g) c.B⟩

/-- The positions the two inner loops run through. -/
def positions (A : List Path) : List (List String × Nat) :=
  A.flatMap fun p => (List.range (p.hops.length - 1)).map fun j => (p.hops, j)

/-- The path a queue entry stands for. -/
def parsePath (shortest : PQNode) : Path :=
  ⟨removeConsecutiveDuplicates (split shortest.node "->"), shortest.cost, shortest.rawRTT⟩

/-- One round of the outer loop: collect candidates from all positions, then
move the cheapest to the result. `some none` is the `break` on an empty queue. -/
def round (dest : String) (fuel : Nat) (A : List Path) (c : Candidates) :
    Option (Option (List Path × Candidates)) :=
  match (positions A).foldlM (ks.spur dest fuel A) c with
  | none => none
  | some c =>
    match Heap.pop byCost c.B with
    | none => some none
    | some (shortest, B) =>
      let newPath := parsePath shortest
      some (some (if isPathInList newPath A then A else A ++ [newPath], { c with B := B }))

def yenLoop (dest : String) (fuel : Nat) : Nat → List Path → Candidates → Option (List Path)
  | 0, _, _ => none
  | n + 1, A, c =>
    if (A.length : Int) < ks.k then
      match ks.round dest fuel A c with
      | none => none
      | some none => some A
      | some (some (A, c)) => yenLoop dest fuel n A c
    else some A

def yensAlgorithm (start dest : String) (graph_ : Adjacency) (fuel : Nat) :
    Option (Except String (List Path)) :=
  match ks.findShortestPath start dest graph_ (fun _ => false) (fun _ => false) fuel with
  | none => none
  | some (.error err) => some (.error err)
  | some (.ok firstPath) =>
    let firstPath := { firstPath with hops := removeConsecutiveDuplicates firstPath.hops }
    match ks.yenLoop dest fuel fuel [firstPath] ⟨graph_, []⟩ with
    | none => none
    | some A => some (.ok ((Sort.exchangeSort Path.cost A).map fun p =>
        { p with hops := removeConsecutiveDuplicates p.hops }))

def computing (start dest : String) (fuel : Nat) : Option (Except String (List PathInfo)) :=
  if isNode ks.edges start = false then some (.error ("start node " ++ start ++ " not found"))
  else if isNode ks.edges dest = false then some (.error ("end node " ++ dest ++ " not found"))
  else
    match ks.yensAlgorithm start dest (adjacency ks.edges) fuel with
    | none => none
    | some (.error err) => some (.error err)
    | some (.ok paths) => some (.ok (paths.map fun p => ⟨p.hops, p.cost, 0⟩))

end KShortestSolver

end SkyAccel.Routing
