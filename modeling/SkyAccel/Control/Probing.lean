import SkyAccel.Lib.Net
import SkyAccel.Control.GraphManager

/-!
# From a probe to an edge

A node probes its targets (`tcpprobe.go`), keeps the latest result of each IP, reports
them as links (`links.go`), and the control plane turns a report into telemetry
(`aggregator/node.go`) that `AddNode` turns into edges. `mem_linksCongestion` says what
becomes of the latest results on the way: each is one link of the telemetry.

A target that never answers is measured at one nanosecond, and its loss has no weight, so
that it looks better than almost every target that does answer (`dead_link_iff`).
-/

namespace SkyAccel.Control

/-! ## Probes -/

/-- An attempt to connect. Whatever is not a timeout counts as an answer, after so many
nanoseconds. -/
inductive Dial
  | timeout
  | answered (rtt : Nat)
  deriving DecidableEq

structure Result where
  target : ProbeTask
  attempts : Nat
  failures : Nat
  lossRate : ℚ
  avgRTT : Nat
  deriving DecidableEq

/-- The variables of the loop over the attempts. -/
structure Tally where
  failures : Nat
  totalRTT : Nat
  successes : Nat

def Tally.count (t : Tally) : Dial → Tally
  | .timeout => { t with failures := t.failures + 1 }
  | .answered rtt => { t with successes := t.successes + 1, totalRTT := t.totalRTT + rtt }

/-- What `doProbeLossRTT` does for one target, with an attempt for each dial. -/
def doProbeLossRTT (target : ProbeTask) (dials : List Dial) : Result :=
  let t := dials.foldl Tally.count ⟨0, 0, 0⟩
  let avgRTT := if t.successes > 0 then t.totalRTT / t.successes else 0
  let avgRTT := if avgRTT ≤ 0 then 1 else avgRTT
  { target
    attempts := dials.length
    failures := t.failures
    lossRate := t.failures / dials.length
    avgRTT }

/-- `latestResults`. A result is kept under the IP of its target. -/
structure LatestResults where
  results : Dict String Result
  filed : ∀ k r, results.lookup k = some r → r.target.ip = k

namespace LatestResults

def empty : LatestResults := ⟨∅, fun _ _ none => by cases none⟩

def file (m : LatestResults) (r : Result) : LatestResults where
  results := m.results.insert r.target.ip r
  filed := by
    intro k r' found
    rw [Dict.lookup_insert] at found
    split at found
    · rename_i same
      rw [same, ← Option.some.inj found]
    · exact m.filed k r' found

end LatestResults

def updateLatestResults (m : LatestResults) (results : List Result) : LatestResults :=
  results.foldl LatestResults.file m

/-- The last result of a round for an IP. -/
def lastFor (results : List Result) (ip : String) : Option Result :=
  Dict.lastOf (fun r => r.target.ip) results ip

theorem lookup_updateLatestResults (m : LatestResults) (results : List Result) (ip : String) :
    (updateLatestResults m results).results.lookup ip =
      (lastFor results ip).or (m.results.lookup ip) := by
  induction results using List.reverseRecOn with
  | nil => rfl
  | append_singleton results r ih =>
    simp only [updateLatestResults, List.foldl_append, List.foldl_cons, List.foldl_nil,
      LatestResults.file, Dict.lookup_insert, lastFor, Dict.lastOf_snoc] at ih ⊢
    by_cases same : r.target.ip = ip
    · simp [same]
    · simp [same, Ne.symm same, ih]

/-! ## Reports -/

/-- `LinkCongestion` of a report. Unlike that of telemetry it names the target IP. -/
structure LinkReport where
  targetIP : String
  target : ProbeTask
  packetLoss : ℚ
  averageLatency : ℚ

/-- `Duration.Milliseconds`. -/
def milliseconds (d : Nat) : Nat := d / 1000000

/-- The entries of the map stand in the order in which the loop meets them. -/
def buildLinkCongestion (results : List ((_ : String) × Result)) : List LinkReport :=
  results.map fun x => ⟨x.1, x.2.target, x.2.lossRate, milliseconds x.2.avgRTT⟩

/-- What `DoClusterWeightedAvg` collects of one target IP. -/
structure LinkTotals where
  probeTask : ProbeTask
  packetLosses : List ℚ
  averageLatencies : List ℚ

def addTotals (totalLinksCong : Dict String LinkTotals) (v : LinkReport) :
    Dict String LinkTotals :=
  let t := (totalLinksCong.lookup v.targetIP).getD ⟨v.target, [], []⟩
  totalLinksCong.insert v.targetIP { t with
    packetLosses := t.packetLosses ++ [v.packetLoss]
    averageLatencies := t.averageLatencies ++ [v.averageLatency] }

def linkAverage (values : List ℚ) : ℚ :=
  let avg := values.foldl (· + ·) 0
  if avg ≠ 0 ∧ values.length > 0 then avg / values.length else avg

def linkMap (links : List LinkReport) : Dict String LinkCongestion :=
  (links.foldl addTotals ∅).mapValues fun vs =>
    ⟨vs.probeTask, linkAverage vs.packetLosses, linkAverage vs.averageLatencies⟩

/-- The telemetry of a report. The public IP is that of the node's configuration. -/
def doClusterWeightedAvg (publicIP : String) (usage : ℚ) (links : List LinkReport) :
    NodeTelemetry where
  publicIP := publicIP
  cpuPressure := usage
  linksCongestion := (linkMap links).values

/-- The node reports the latest results in this telemetry, with loops over maps that take
any order. -/
def Reports (m : LatestResults) (publicIP : String) (usage : ℚ) (node : NodeTelemetry) : Prop :=
  ∃ results, results.Perm m.results.entries ∧
    let telemetry := doClusterWeightedAvg publicIP usage (buildLinkCongestion results)
    node.publicIP = telemetry.publicIP ∧ node.cpuPressure = telemetry.cpuPressure ∧
      node.linksCongestion.Perm telemetry.linksCongestion

/-! ## What becomes of a result -/

/-- The link of a result. -/
def Result.link (r : Result) : LinkCongestion :=
  ⟨r.target, r.lossRate, milliseconds r.avgRTT⟩

theorem linkAverage_singleton (x : ℚ) : linkAverage [x] = x := by
  simp [linkAverage]

/-- With one link for each target IP there is nothing to add up. -/
theorem lookup_totals {links : List LinkReport} (once : (links.map LinkReport.targetIP).Nodup)
    (k : String) (t : LinkTotals) : (links.foldl addTotals ∅).lookup k = some t ↔
      ∃ v ∈ links, v.targetIP = k ∧ t = ⟨v.target, [v.packetLoss], [v.averageLatency]⟩ := by
  induction links using List.reverseRecOn generalizing k t with
  | nil => simp
  | append_singleton links v ih =>
    rw [List.map_append, List.nodup_append] at once
    obtain ⟨before, -, apart⟩ := once
    have other : ∀ v' ∈ links, v'.targetIP ≠ v.targetIP := fun v' mem =>
      apart v'.targetIP (List.mem_map_of_mem mem) v.targetIP (by simp)
    have new : (links.foldl addTotals ∅).lookup v.targetIP = none := by
      apply Option.eq_none_iff_forall_ne_some.mpr
      intro t found
      obtain ⟨v', mem, same, -⟩ := (ih before v.targetIP t).mp found
      exact other v' mem same
    rw [List.foldl_append, List.foldl_cons, List.foldl_nil, addTotals, new, Dict.lookup_insert]
    simp only [List.mem_append, List.mem_singleton]
    split
    · rename_i here
      constructor
      · intro stored
        exact ⟨v, .inr rfl, here.symm, (Option.some.inj stored).symm⟩
      · rintro ⟨v', mem | rfl, same, rfl⟩
        · exact absurd (same.trans here) (other v' mem)
        · rfl
    · rename_i there
      rw [ih before]
      constructor
      · rintro ⟨v', mem, rest⟩
        exact ⟨v', .inl mem, rest⟩
      · rintro ⟨v', mem | rfl, same, rest⟩
        · exact ⟨v', mem, same, rest⟩
        · exact absurd same.symm there

theorem mem_doClusterWeightedAvg {links : List LinkReport}
    (once : (links.map LinkReport.targetIP).Nodup) {publicIP : String} {usage : ℚ}
    {l : LinkCongestion} : l ∈ (doClusterWeightedAvg publicIP usage links).linksCongestion ↔
      ∃ v ∈ links, l = ⟨v.target, v.packetLoss, v.averageLatency⟩ := by
  unfold doClusterWeightedAvg linkMap
  rw [Dict.mem_values]
  simp only [Dict.lookup_mapValues, Option.map_eq_some_iff, lookup_totals once]
  constructor
  · rintro ⟨k, t, ⟨v, mem, -, rfl⟩, rfl⟩
    exact ⟨v, mem, by simp only [linkAverage_singleton]⟩
  · rintro ⟨v, mem, rfl⟩
    exact ⟨v.targetIP, _, ⟨v, mem, rfl, rfl⟩, by simp only [linkAverage_singleton]⟩

/-- The links of the telemetry are those of the latest results. -/
theorem mem_linksCongestion {m : LatestResults} {publicIP : String} {usage : ℚ}
    {node : NodeTelemetry} (h : Reports m publicIP usage node) {v : LinkCongestion} :
    v ∈ node.linksCongestion ↔ ∃ r, m.results.lookup r.target.ip = some r ∧ v = r.link := by
  obtain ⟨results, order, -, -, links⟩ := h
  have once : ((buildLinkCongestion results).map LinkReport.targetIP).Nodup := by
    have keys := (order.map Sigma.fst).nodup_iff.mpr m.results.nodupKeys
    rwa [buildLinkCongestion, List.map_map]
  rw [links.mem_iff, mem_doClusterWeightedAvg once]
  constructor
  · rintro ⟨_, mem, rfl⟩
    obtain ⟨⟨k, r⟩, inside, rfl⟩ := List.mem_map.mp mem
    have found := Dict.lookup_eq_some.mpr (order.mem_iff.mp inside)
    refine ⟨r, ?_, rfl⟩
    rw [m.filed k r found]
    exact found
  · rintro ⟨r, found, rfl⟩
    have inside := order.mem_iff.mpr (Dict.lookup_eq_some.mp found)
    exact ⟨_, List.mem_map_of_mem inside, rfl⟩

/-! ## A dead link -/

def Dial.rtt : Dial → Nat
  | .timeout => 0
  | .answered rtt => rtt

/-- The attempts that were answered. -/
def answers (dials : List Dial) : List Dial := dials.filter (· ≠ .timeout)

theorem foldl_count (dials : List Dial) (t : Tally) :
    dials.foldl Tally.count t =
      ⟨t.failures + dials.count .timeout, t.totalRTT + ((answers dials).map Dial.rtt).sum,
        t.successes + (answers dials).length⟩ := by
  induction dials generalizing t with
  | nil => rfl
  | cons d dials ih =>
    rw [List.foldl_cons, ih]
    cases d with
    | timeout => simp [Tally.count, answers]; omega
    | answered rtt => simp [Tally.count, answers, Dial.rtt]; omega

/-- A link is measured at 0 ms exactly if its answers took less than 1 ms on average, or
there were none. -/
theorem milliseconds_eq_zero (target : ProbeTask) (dials : List Dial) :
    milliseconds (doProbeLossRTT target dials).avgRTT = 0 ↔
      answers dials = [] ∨
        ((answers dials).map Dial.rtt).sum < 1000000 * (answers dials).length := by
  simp only [milliseconds, doProbeLossRTT, foldl_count, Nat.zero_add]
  generalize ((answers dials).map Dial.rtt).sum = total
  rw [← List.length_eq_zero_iff]
  generalize (answers dials).length = successes
  rw [Nat.div_eq_zero_iff_lt (by decide)]
  obtain rfl | some := Nat.eq_zero_or_pos successes
  · simp
  · have short : total / successes < 1000000 ↔ total < 1000000 * successes := by
      rw [Nat.div_lt_iff_lt_mul some]
    rw [if_pos some, ← short]
    split <;> omega

/-- The CPU pressure that the weight of the edge to a target counts. -/
def outPressure (nodes : Dict String NodeTelemetry) (target : ProbeTask) : Option ℚ :=
  if target.targetType = "source" then some 0
  else (nodes.lookup target.ip).map NodeTelemetry.cpuPressure

theorem reported_weight {math : Math} {nodes : Dict String NodeTelemetry} {node : NodeTelemetry}
    {v : LinkCongestion} {e : Routing.Edge} (h : reported math nodes node v = some e) :
    ∃ cpu, outPressure nodes v.target = some cpu ∧
      e.edgeWeight = edgeRisk math cpu v.packetLoss v.averageLatency := by
  unfold reported at h
  unfold outPressure
  split at h
  · rename_i origin
    obtain rfl := Option.some.inj h
    exact ⟨0, if_pos origin, rfl⟩
  · rename_i other
    rw [if_neg other]
    split at h
    · cases h
    · rename_i outNode found
      obtain rfl := Option.some.inj h
      exact ⟨outNode.cpuPressure, by rw [found]; rfl, rfl⟩

/-- At one CPU pressure only the latency counts. -/
theorem edgeRisk_le_iff {math : Math}
    (pow_lt : ∀ x y p, 0 < p → 0 ≤ x → x < y → math.pow x p < math.pow y p)
    {cpu loss loss' latency latency' : ℚ} (h : 0 ≤ latency) (h' : 0 ≤ latency') :
    edgeRisk math cpu loss latency ≤ edgeRisk math cpu loss' latency' ↔ latency ≤ latency' := by
  have ratio : ¬ latency / 150 < 0 := by linarith
  have ratio' : ¬ latency' / 150 < 0 := by linarith
  simp only [edgeRisk, if_neg ratio, if_neg ratio', zero_mul, add_zero]
  constructor
  · intro le
    by_contra more
    have := pow_lt (latency' / 150) (latency / 150) (3 / 2) (by norm_num) (by linarith)
      (by linarith)
    linarith
  · intro le
    obtain same | less := le.eq_or_lt
    · rw [same]
    · have := pow_lt (latency / 150) (latency' / 150) (3 / 2) (by norm_num) (by linarith)
        (by linarith)
      linarith

/-- The edge that `AddNode` makes of the link to a target. -/
def assigned (math : Math) (g : GraphManager) (node : NodeTelemetry) (target : ProbeTask) :
    Option Routing.Edge :=
  (node.linksCongestion.find? (·.target = target)).bind
    (reported math (g.addNode math node).nodes node)

theorem assigned_weight {math : Math} {g : GraphManager} {m : LatestResults} {publicIP : String}
    {usage : ℚ} {node : NodeTelemetry} (h : Reports m publicIP usage node) {r : Result}
    (found : m.results.lookup r.target.ip = some r) {e : Routing.Edge}
    (edge : assigned math g node r.target = some e) :
    ∃ cpu, outPressure (g.addNode math node).nodes r.target = some cpu ∧
      e.edgeWeight = edgeRisk math cpu r.lossRate (milliseconds r.avgRTT) := by
  obtain ⟨v, first, report⟩ := Option.bind_eq_some_iff.mp edge
  obtain ⟨r', found', rfl⟩ := (mem_linksCongestion h).mp (List.mem_of_find?_eq_some first)
  have target : r'.link.target = r.target := by simpa using List.find?_some first
  rw [show r'.target = r.target from target, found] at found'
  obtain rfl := Option.some.inj found'
  exact reported_weight report

/-- The edge to a target that was probed so gets this weight, at this CPU pressure of the
node it leads to. -/
structure Weighs (math : Math) (target : ProbeTask) (dials : List Dial) (cpu weight : ℚ)
    (g : GraphManager) (m : LatestResults) (node : NodeTelemetry) : Prop where
  reports : ∃ publicIP usage, Reports m publicIP usage node
  probed : m.results.lookup target.ip = some (doProbeLossRTT target dials)
  pressure : outPressure (g.addNode math node).nodes target = some cpu
  edge : ∃ e, assigned math g node target = some e ∧ e.edgeWeight = weight

theorem Weighs.weight_eq {math : Math} {target : ProbeTask} {dials : List Dial}
    {cpu weight : ℚ} {g : GraphManager} {m : LatestResults} {node : NodeTelemetry}
    (h : Weighs math target dials cpu weight g m node) :
    weight = edgeRisk math cpu (doProbeLossRTT target dials).lossRate
      (milliseconds (doProbeLossRTT target dials).avgRTT) := by
  obtain ⟨publicIP, usage, reports⟩ := h.reports
  obtain ⟨e, edge, rfl⟩ := h.edge
  obtain ⟨cpu', pressure, weight⟩ :=
    assigned_weight reports (r := doProbeLossRTT target dials) h.probed edge
  obtain rfl : cpu = cpu' := Option.some.inj (h.pressure.symm.trans pressure)
  exact weight

/-- **A dead link weighs least.** Of two targets at the same CPU pressure, in the report of
one node or of two, of which the first never answered and the second did, the first weighs
at least as much as the second exactly if the answers of the second took less than a
millisecond on average. -/
theorem dead_link_iff (math : Math)
    (pow_lt : ∀ x y p, 0 < p → 0 ≤ x → x < y → math.pow x p < math.pow y p)
    {first second : ProbeTask} {dials₁ dials₂ : List Dial} {cpu weight₁ weight₂ : ℚ}
    {g₁ g₂ : GraphManager} {m₁ m₂ : LatestResults} {node₁ node₂ : NodeTelemetry}
    (weighs₁ : Weighs math first dials₁ cpu weight₁ g₁ m₁ node₁)
    (weighs₂ : Weighs math second dials₂ cpu weight₂ g₂ m₂ node₂)
    (dead : ∀ d ∈ dials₁, d = .timeout) (alive : ∃ d ∈ dials₂, d ≠ .timeout) :
    weight₂ ≤ weight₁ ↔
      ((answers dials₂).map Dial.rtt).sum < 1000000 * (answers dials₂).length := by
  have silent : answers dials₁ = [] := by
    simpa [answers, List.filter_eq_nil_iff] using dead
  have answered : answers dials₂ ≠ [] := by
    obtain ⟨d, mem, ne⟩ := alive
    exact List.ne_nil_of_mem (List.mem_filter.mpr ⟨mem, by simpa using ne⟩)
  have zero := (milliseconds_eq_zero first dials₁).mpr (.inl silent)
  rw [weighs₁.weight_eq, weighs₂.weight_eq,
    edgeRisk_le_iff pow_lt (Nat.cast_nonneg _) (Nat.cast_nonneg _), zero,
    Nat.cast_le, Nat.le_zero, milliseconds_eq_zero, or_iff_right answered]

/-- A node that probes `b` and `c` five times each. -/
def twoTargets (b c : Dial) : LatestResults :=
  updateLatestResults .empty
    [doProbeLossRTT ⟨"node", "b", 0⟩ (List.replicate 5 b),
      doProbeLossRTT ⟨"node", "c", 0⟩ (List.replicate 5 c)]

/-- What it reports, and the graph that knows both. -/
def twoTargetsReport (b c : Dial) : NodeTelemetry :=
  doClusterWeightedAvg "a" 0 (buildLinkCongestion (twoTargets b c).results.entries)

def twoNodes : GraphManager :=
  reached unitMath [.addNode ⟨"b", 0, []⟩, .addNode ⟨"c", 0, []⟩]

/-- Every attempt at `b` times out, and `c` answers after 150 ms: the edge to `b` gets the
smaller weight. The powers are those of 0 and 1. -/
theorem dead_link_preferred :
    let g := twoNodes.addNode unitMath (twoTargetsReport .timeout (.answered 150000000))
    (g.edges.lookup "a->b").map Routing.Edge.edgeWeight = some 0 ∧
      (g.edges.lookup "a->c").map Routing.Edge.edgeWeight = some (1 / 2) := by
  decide +kernel

theorem dead_link_close :
    ∃ weight₁ weight₂,
      Weighs unitMath ⟨"node", "b", 0⟩ (List.replicate 5 .timeout) 0 weight₁ twoNodes
        (twoTargets .timeout (.answered 500000))
        (twoTargetsReport .timeout (.answered 500000)) ∧
      Weighs unitMath ⟨"node", "c", 0⟩ (List.replicate 5 (.answered 500000)) 0 weight₂ twoNodes
        (twoTargets .timeout (.answered 500000))
        (twoTargetsReport .timeout (.answered 500000)) ∧
      weight₂ ≤ weight₁ := by
  have reports : Reports (twoTargets .timeout (.answered 500000)) "a" 0
      (twoTargetsReport .timeout (.answered 500000)) := ⟨_, .refl _, rfl, rfl, .refl _⟩
  have weighs₁ : Weighs unitMath ⟨"node", "b", 0⟩ (List.replicate 5 .timeout) 0 0 twoNodes
      (twoTargets .timeout (.answered 500000))
      (twoTargetsReport .timeout (.answered 500000)) :=
    ⟨⟨_, _, reports⟩, by decide +kernel, by decide +kernel, ⟨"a", "b", 0, 0, 0⟩,
      by decide +kernel, rfl⟩
  have weighs₂ : Weighs unitMath ⟨"node", "c", 0⟩ (List.replicate 5 (.answered 500000)) 0 0
      twoNodes (twoTargets .timeout (.answered 500000))
      (twoTargetsReport .timeout (.answered 500000)) :=
    ⟨⟨_, _, reports⟩, by decide +kernel, by decide +kernel, ⟨"a", "c", 0, 0, 0⟩,
      by decide +kernel, rfl⟩
  refine ⟨0, 0, weighs₁, weighs₂, ?_⟩
  apply (dead_link_iff unitMath (fun _ _ _ _ _ less => less) weighs₁ weighs₂ (by decide)
    (by decide)).mpr
  decide

end SkyAccel.Control
