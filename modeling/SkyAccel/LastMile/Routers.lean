import SkyAccel.Lib.Dict
import SkyAccel.Lib.Shuffle
import SkyAccel.Lib.Sort
import Mathlib.Algebra.Order.Field.Basic
import Mathlib.Data.List.Sort

/-!
# The last-mile routers

`routing/edge-domain` and the dispatch of `routing/routing.go`: which node a user is to be
sent to, by the CPU usage of the nodes and the latency between the city of the user and
each of them. Numbers are those of an ordered field, and `exp` stands for `math.Exp`.

The loops over the telemetry meet the nodes in the order of a draw. A sort that keeps equal
scores in order then gives every result that `sort.Slice` may give.
-/

namespace SkyAccel.LastMile

structure CPUInfo (K : Type) where
  usage : K
  loadDelta : K
  logicalCore : Int

/-- The fields that the routers read. -/
structure NodeTelemetry (K : Type) where
  publicIP : String
  continent : String
  cpu : CPUInfo K

structure LastCongestion (K : Type) where
  count : Int
  avgRT : K
  deriving DecidableEq

structure EndPoint where
  ip : String
  continent : String
  country : String
  city : String
  deriving DecidableEq

structure PathInfo (K : Type) where
  hops : List String
  rtt : K
  rawRTT : K
  deriving DecidableEq

abbrev NodeTel (K : Type) := Dict String (NodeTelemetry K)

abbrev EdgeAgg (K : Type) := Dict String (LastCongestion K)

/-- What every router begins with: the addresses of the nodes, or else this node's own. -/
def collectNodes {K : Type} (c : Choices) (localIP : String) (nodeTel : NodeTel K) : List String :=
  let nodeIps := shuffle c 0 (nodeTel.values.map NodeTelemetry.publicIP)
  if nodeIps.length ≤ 0 then [localIP] else nodeIps

variable {K : Type} [Field K] [LinearOrder K]

/-- `GetNodeRT` of three routers. -/
def getNodeRT (nodeTel : NodeTel K) (edgeAgg : EdgeAgg K) (source : EndPoint) (nodeIP : String) :
    Option (LastCongestion K) :=
  match nodeTel.lookup nodeIP with
  | none => none
  | some _ =>
    match edgeAgg.lookup (source.city ++ "-" ++ nodeIP) with
    | some congestion => some congestion
    | none => some ⟨1, 50⟩

/-- The delay from the statistics of a node, as the first two routers compute it. -/
def delayOf (stats : Option (LastCongestion K)) : K :=
  let avgRT := match stats with
    | none => 500
    | some stats => if stats.count = 0 then 500 else stats.avgRT
  if avgRT ≤ 0 then 100 else avgRT

structure NodeScore (K : Type) where
  nodeIp : String
  score : K

/-- The scores of the nodes with telemetry, the smallest first. -/
def rank (nodeTel : NodeTel K) (score : String → NodeTelemetry K → K) (nodeIps : List String) :
    List (NodeScore K) :=
  (nodeIps.filterMap fun nodeIp =>
    (nodeTel.lookup nodeIp).map fun tel => ⟨nodeIp, score nodeIp tel⟩).insertionSort
      fun a b => a.score ≤ b.score

/-! ## Lyapunov -/

/-- The threshold `good` of `getLatencyConfig`. -/
def getLatencyConfig (sourceCont destCont : String) : K :=
  let key := sourceCont ++ "-" ++ destCont
  if key = "Asia-NorthAmerica" ∨ key = "NorthAmerica-Asia" then 60
  else if sourceCont ≠ destCont then 60
  else 20

/-- `Mid` and `SensitivityCPU` of `GetCPUThresholds`. -/
def getCPUThresholds (logicalCores : Int) : K × K := if logicalCores = 4 then (80, 3) else (60, 2)

def computeDelayPenalty (exp : K → K) (rt good : K) : K :=
  if good ≤ 0 then exp (1 / 5 * (rt / 50 - 1)) else exp (1 / 5 * (rt / good - 1))

def computeCPUPenalty (exp : K → K) (Qk : K) (logicalCores : Int) : K :=
  let (mid, sensitivity) := getCPUThresholds logicalCores
  let alpha := if sensitivity ≤ 0 then 2 else sensitivity
  if mid ≤ 0 then exp (alpha * (Qk / 60 - 1)) else exp (alpha * (Qk / mid - 1))

def softmaxProbabilities (exp : K → K) (candidates : List (NodeScore K)) (temperature : K) :
    List K :=
  let expScores := candidates.map fun c => exp (-c.score / temperature)
  expScores.map fun e => if 0 < expScores.sum then e / expScores.sum else 0

structure LyapunovSolver (K : Type) where
  edgeAgg : EdgeAgg K
  nodeTel : NodeTel K

namespace LyapunovSolver

def score (exp : K → K) (l : LyapunovSolver K) (source : EndPoint) (nodeIp : String)
    (tel : NodeTelemetry K) : K :=
  let Qk := if tel.cpu.usage < 0 then 0 else tel.cpu.usage
  let delay := delayOf (getNodeRT l.nodeTel l.edgeAgg source nodeIp)
  1 * computeCPUPenalty exp (Qk + |tel.cpu.loadDelta|) tel.cpu.logicalCore +
    1 * computeDelayPenalty exp delay (getLatencyConfig source.continent tel.continent)

def computing (exp : K → K) (c : Choices) (localIP : String) (l : LyapunovSolver K)
    (source : EndPoint) : List (PathInfo K) :=
  let candidates := rank l.nodeTel (l.score exp source) (collectNodes c localIP l.nodeTel)
  let probabilities := softmaxProbabilities exp candidates 2
  candidates.zipIdx.map fun (item, i) => ⟨[item.nodeIp], probabilities.getD i 0, item.score⟩

end LyapunovSolver

/-! ## CPU and latency together -/

structure JointRouter (K : Type) where
  edgeAgg : EdgeAgg K
  nodeTel : NodeTel K
  cpuWeight : K
  latencyWeight : K

def newJointRouter (edgeAgg : EdgeAgg K) (nodeTel : NodeTel K) : JointRouter K :=
  ⟨edgeAgg, nodeTel, 1 / 2, 1 / 2⟩

namespace JointRouter

def setWeights (r : JointRouter K) (cpuWeight latencyWeight : K) : JointRouter K :=
  if 0 < cpuWeight ∧ 0 < latencyWeight then
    let total := cpuWeight + latencyWeight
    { r with cpuWeight := cpuWeight / total, latencyWeight := latencyWeight / total }
  else if cpuWeight = 0 ∧ 0 < latencyWeight then { r with cpuWeight := 0, latencyWeight := 1 }
  else if latencyWeight = 0 ∧ 0 < cpuWeight then { r with cpuWeight := 1, latencyWeight := 0 }
  else r

/-- The CPU usage of a node as it is scored. -/
def backlog (tel : NodeTelemetry K) : K := if tel.cpu.usage < 0 then 100 else tel.cpu.usage

def delay (r : JointRouter K) (source : EndPoint) (nodeIp : String) : K :=
  delayOf (getNodeRT r.nodeTel r.edgeAgg source nodeIp)

def score (r : JointRouter K) (source : EndPoint) (nodeIp : String) (tel : NodeTelemetry K) : K :=
  r.cpuWeight * backlog tel + r.latencyWeight * r.delay source nodeIp

def computing (c : Choices) (localIP : String) (r : JointRouter K) (source : EndPoint) :
    List (PathInfo K) :=
  (rank r.nodeTel (r.score source) (collectNodes c localIP r.nodeTel)).map fun item =>
    ⟨[item.nodeIp], item.score, 0⟩

end JointRouter

/-- The weights of CPU and latency that a request for the joint algorithm leads to. -/
def normalised (cpuWeight latencyWeight : K) : K × K :=
  if 0 < cpuWeight ∧ 0 < latencyWeight then
    (cpuWeight / (cpuWeight + latencyWeight), latencyWeight / (cpuWeight + latencyWeight))
  else if cpuWeight = 0 ∧ 0 < latencyWeight then (0, 1)
  else if latencyWeight = 0 ∧ 0 < cpuWeight then (1, 0)
  else (1 / 2, 1 / 2)

/-! ## Power of two choices -/

structure P2CRouter (K : Type) where
  nodeTel : NodeTel K
  edgeAgg : EdgeAgg K

namespace P2CRouter

def load (r : P2CRouter K) (nodeIP : String) : K :=
  match r.nodeTel.lookup nodeIP with
  | none => 100
  | some tel => if tel.cpu.usage < 0 ∨ tel.cpu.usage = 0 then 100 else tel.cpu.usage

def computing (c : Choices) (localIP : String) (r : P2CRouter K) : List (PathInfo K) :=
  let weights := (collectNodes c localIP r.nodeTel).map fun nodeIP => (nodeIP, 1 / r.load nodeIP)
  let totalWeight := (weights.map Prod.snd).sum
  weights.map fun (nodeIP, weight) => ⟨[nodeIP], weight / totalWeight, 0⟩

end P2CRouter

/-! ## Moving averages -/

structure EWMARouter (K : Type) where
  nodeTel : NodeTel K
  edgeAgg : EdgeAgg K
  cpuEWMA : Dict String K
  latEWMA : Dict String K
  cpuAlpha : K
  latAlpha : K
  lambda : K

def newEWMARouter (nodeTel : NodeTel K) (edgeAgg : EdgeAgg K) : EWMARouter K :=
  ⟨nodeTel, edgeAgg, ∅, ∅, 3 / 10, 3 / 10, 1 / 2⟩

/-- The update of one average, which begins with the first observation. -/
def updateEWMA (alpha : K) (averages : Dict String K) (nodeIP : String) (x : K) : Dict String K :=
  match averages.lookup nodeIP with
  | none => averages.insert nodeIP x
  | some current => averages.insert nodeIP (alpha * x + (1 - alpha) * current)

structure Candidate (K : Type) where
  nodeIp : String
  cpuUsage : K
  latency : K
  cpuEwma : K
  latEwma : K

namespace EWMARouter

def setAlpha (r : EWMARouter K) (alpha lambda : K) : EWMARouter K :=
  { r with cpuAlpha := alpha, latAlpha := alpha, lambda := lambda }

def updateEWMACPU (r : EWMARouter K) (nodeIP : String) (cpuUsage : K) : EWMARouter K :=
  { r with cpuEWMA := updateEWMA r.cpuAlpha r.cpuEWMA nodeIP cpuUsage }

def updateEWMALatency (r : EWMARouter K) (nodeIP : String) (latency : K) : EWMARouter K :=
  { r with latEWMA := updateEWMA r.latAlpha r.latEWMA nodeIP latency }

def getCPUEWMA (r : EWMARouter K) (nodeIP : String) : K := (r.cpuEWMA.lookup nodeIP).getD 100

def getLatEWMA (r : EWMARouter K) (nodeIP : String) : K := (r.latEWMA.lookup nodeIP).getD 500

/-- The CPU usage of a node as it is observed. -/
def observedCPU (tel : NodeTelemetry K) : K := if tel.cpu.usage < 0 then 100 else tel.cpu.usage

/-- The latency of a node as it is observed. -/
def observedLatency (r : EWMARouter K) (source : EndPoint) (nodeIp : String) : K :=
  let latency := match getNodeRT r.nodeTel r.edgeAgg source nodeIp with
    | none => 100
    | some stats => if 0 < stats.count then stats.avgRT else 100
  if latency ≤ 0 then 100 else latency

/-- One turn of the first loop. -/
def collect (source : EndPoint) (st : EWMARouter K × List (Candidate K)) (nodeIp : String) :
    EWMARouter K × List (Candidate K) :=
  match st.1.nodeTel.lookup nodeIp with
  | none => st
  | some tel =>
    let cpuUsage := observedCPU tel
    let r := st.1.updateEWMACPU nodeIp cpuUsage
    let latency := r.observedLatency source nodeIp
    let r := r.updateEWMALatency nodeIp latency
    (r, st.2 ++ [⟨nodeIp, cpuUsage, latency, r.getCPUEWMA nodeIp, r.getLatEWMA nodeIp⟩])

/-- The router after the first loop, and the candidates. -/
def collected (c : Choices) (localIP : String) (r : EWMARouter K) (source : EndPoint) :
    EWMARouter K × List (Candidate K) :=
  (collectNodes c localIP r.nodeTel).foldl (collect source) (r, [])

def combined (r : EWMARouter K) (c : Candidate K) : K :=
  r.lambda * c.cpuEwma + (1 - r.lambda) * (c.latEwma / 1)

def rawWeight (combined : K) : K := if 0 < combined then 1 / combined else 1

/-- The paths, and the router with the averages it has updated. -/
def computing (c : Choices) (localIP : String) (r : EWMARouter K) (source : EndPoint) :
    List (PathInfo K) × EWMARouter K :=
  let (r, candidates) := r.collected c localIP source
  let candidates := Sort.exchangeSort r.combined candidates
  let totalWeight := (candidates.map fun c => rawWeight (r.combined c)).sum
  (candidates.map fun c =>
    ⟨[c.nodeIp], rawWeight (r.combined c) / totalWeight, r.combined c⟩, r)

end EWMARouter

/-! ## Dispatch -/

/-- The algorithms that `InitLastInterface` accepts, of the names it knows. For any other name
there is no router. -/
inductive Algorithm
  | lyapunov
  | latencyOnly
  | cpuOnly
  | jointCpuLatency
  | p2c
  | ewmaBased
  deriving DecidableEq

inductive LastRouter (K : Type)
  | lyapunov (l : LyapunovSolver K)
  | joint (r : JointRouter K)
  | p2c (r : P2CRouter K)
  | ewma (r : EWMARouter K)

/-- A new router for every request. -/
def initLastInterface (nodes : NodeTel K) (edgeAgg : EdgeAgg K) (algorithm : Algorithm)
    (cpuWeight latencyWeight : K) : LastRouter K :=
  match algorithm with
  | .lyapunov => .lyapunov ⟨edgeAgg, nodes⟩
  | .latencyOnly => .joint ((newJointRouter edgeAgg nodes).setWeights 0 1)
  | .cpuOnly => .joint ((newJointRouter edgeAgg nodes).setWeights 1 0)
  | .jointCpuLatency =>
    if 0 ≤ cpuWeight ∧ 0 ≤ latencyWeight then
      .joint ((newJointRouter edgeAgg nodes).setWeights cpuWeight latencyWeight)
    else .joint (newJointRouter edgeAgg nodes)
  | .p2c => .p2c ⟨nodes, edgeAgg⟩
  | .ewmaBased =>
    if 0 ≤ cpuWeight ∧ 0 ≤ latencyWeight then
      .ewma ((newEWMARouter nodes edgeAgg).setAlpha cpuWeight latencyWeight)
    else .ewma (newEWMARouter nodes edgeAgg)

def LastRouter.computing (exp : K → K) (c : Choices) (localIP : String) (source : EndPoint) :
    LastRouter K → List (PathInfo K)
  | .lyapunov l => l.computing exp c localIP source
  | .joint r => r.computing c localIP source
  | .p2c r => r.computing c localIP
  | .ewma r => (r.computing c localIP source).1

/-- What `GetIPInfo` finds out about the address of the user. -/
structure IPInfo where
  country : String
  city : String
  continent : String
  deriving DecidableEq

/-- The source of a request as `LastRouting` completes it. -/
def locate (source : EndPoint) (result : IPInfo) : EndPoint :=
  { source with country := result.country, city := result.city, continent := result.continent }

/-- `LastRouting`; `result` is `none` for an error of `GetIPInfo`. -/
def lastRouting (exp : K → K) (c : Choices) (localIP : String) (nodes : NodeTel K)
    (edgeAgg : EdgeAgg K) (source : EndPoint) (result : Option IPInfo) (algorithm : Algorithm)
    (cpuWeight latencyWeight : K) : List (PathInfo K) :=
  match result with
  | none => []
  | some result =>
    (initLastInterface nodes edgeAgg algorithm cpuWeight latencyWeight).computing exp c localIP
      (locate source result)

end SkyAccel.LastMile
