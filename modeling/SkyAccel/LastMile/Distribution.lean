import SkyAccel.Lib.Averages
import SkyAccel.LastMile.Routers

/-!
# Last-mile weights as a distribution

Clients split their traffic by the `Rtt` of the paths. Three of the routers divide positive
weights by their sum. The joint router, which serves three algorithms, returns its scores
as they are: they are a distribution only if the weighted CPU usages and delays of the nodes
happen to add up to one (`weights_distribution_iff`).
-/

namespace SkyAccel.LastMile

open Averages

section
variable {K : Type} (c : Choices) (localIP : String) (nodes : NodeTel K)

theorem collectNodes_ne_nil : collectNodes c localIP nodes ≠ [] := by
  unfold collectNodes
  dsimp only
  split
  · exact List.cons_ne_nil _ _
  · rename_i more
    exact List.ne_nil_of_length_pos (not_le.mp more)

/-- The addresses without the order in which the loop meets them. -/
def addresses : List String :=
  if nodes.values = [] then [localIP] else nodes.values.map NodeTelemetry.publicIP

theorem collectNodes_perm : (collectNodes c localIP nodes).Perm (addresses localIP nodes) := by
  have order := shuffle_perm c 0 (nodes.values.map NodeTelemetry.publicIP)
  have size : (shuffle c 0 (nodes.values.map NodeTelemetry.publicIP)).length ≤ 0 ↔
      nodes.values = [] := by
    rw [order.length_eq, List.length_map, Nat.le_zero, List.length_eq_zero_iff]
  simp only [collectNodes, addresses, size]
  split
  · exact .refl _
  · exact order

/-- The nodes that are scored, with their telemetry. -/
def scored : List (String × NodeTelemetry K) :=
  (addresses localIP nodes).filterMap fun nodeIp =>
    (nodes.lookup nodeIp).map fun tel => (nodeIp, tel)

/-- Without the order of the ranking. -/
theorem rank_perm [LinearOrder K] (score : String → NodeTelemetry K → K) :
    ((rank nodes score (collectNodes c localIP nodes)).map NodeScore.score).Perm
      ((scored localIP nodes).map fun x => score x.1 x.2) := by
  have listed : ((addresses localIP nodes).filterMap fun nodeIp =>
      (nodes.lookup nodeIp).map fun tel => (⟨nodeIp, score nodeIp tel⟩ : NodeScore K)) =
        (scored localIP nodes).map fun x => ⟨x.1, score x.1 x.2⟩ := by
    simp only [scored, List.map_filterMap, Option.map_map]
    rfl
  have order := (List.perm_insertionSort (fun a b : NodeScore K => a.score ≤ b.score) _).trans
    ((collectNodes_perm c localIP nodes).filterMap fun nodeIp =>
      (nodes.lookup nodeIp).map fun tel => (⟨nodeIp, score nodeIp tel⟩ : NodeScore K))
  rw [listed] at order
  have scores := order.map NodeScore.score
  rw [List.map_map] at scores
  exact scores

/-- The probabilities are those at the positions of the candidates. -/
theorem map_zipIdx_getD {α β : Type} (l : List α) (prob : α → K) (d : K) (make : α → K → β) :
    (l.zipIdx.map fun x => make x.1 ((l.map prob).getD x.2 d)) =
      l.map fun a => make a (prob a) := by
  apply List.ext_getElem
  · simp
  · intro i _ inside
    have bound : i < l.length := by simpa using inside
    simp [List.getD_eq_getElem?_getD, bound]

end

variable {K : Type} [Field K] [LinearOrder K] [IsStrictOrderedRing K]
variable {nodes : NodeTel K} {edgeAgg : EdgeAgg K} {source : EndPoint} {localIP : String}
  {c : Choices}

/-! ## The routers that divide by a sum -/

theorem softmaxProbabilities_eq {exp : K → K} (exp_pos : ∀ x, 0 < exp x)
    {candidates : List (NodeScore K)} (some : candidates ≠ []) (temperature : K) :
    softmaxProbabilities exp candidates temperature =
      shares (candidates.map fun c => exp (-c.score / temperature)) := by
  have total : 0 < (candidates.map fun c => exp (-c.score / temperature)).sum := by
    apply List.sum_pos
    · intro x mem
      obtain ⟨c, -, rfl⟩ := List.mem_map.mp mem
      exact exp_pos _
    · simpa using some
  simp only [softmaxProbabilities, if_pos total, shares]

theorem lyapunov_eq {exp : K → K} (exp_pos : ∀ x, 0 < exp x) (l : LyapunovSolver K) (c : Choices)
    (localIP : String) (source : EndPoint) :
    let candidates := rank l.nodeTel (l.score exp source) (collectNodes c localIP l.nodeTel)
    l.computing exp c localIP source = candidates.map fun item =>
      ⟨[item.nodeIp], share (fun c => exp (-c.score / 2)) candidates item, item.score⟩ := by
  intro candidates
  have unfolded : l.computing exp c localIP source = candidates.zipIdx.map fun x =>
      (⟨[x.1.nodeIp], (softmaxProbabilities exp candidates 2).getD x.2 0, x.1.score⟩ :
        PathInfo K) := rfl
  by_cases none : candidates = []
  · simp [unfolded, none]
  · rw [unfolded, softmaxProbabilities_eq exp_pos none, shares_map]
    exact map_zipIdx_getD candidates _ 0 fun item prob =>
      (⟨[item.nodeIp], prob, item.score⟩ : PathInfo K)

theorem lyapunov_distribution {exp : K → K} (exp_pos : ∀ x, 0 < exp x) (l : LyapunovSolver K)
    (some : l.computing exp c localIP source ≠ []) :
    IsDistribution ((l.computing exp c localIP source).map PathInfo.rtt) := by
  have paths := lyapunov_eq exp_pos l c localIP source
  dsimp only at paths
  rw [paths] at some ⊢
  generalize rank l.nodeTel (l.score exp source) (collectNodes c localIP l.nodeTel) =
    candidates at some ⊢
  have candidates_ne : candidates ≠ [] := fun none => some (List.map_eq_nil_iff.mpr none)
  rw [List.map_map]
  change IsDistribution (candidates.map (share (fun c => exp (-c.score / 2)) candidates))
  rw [← shares_map]
  exact shares_map_isDistribution (fun _ => exp_pos _) candidates_ne

theorem P2CRouter.load_pos (r : P2CRouter K) (nodeIP : String) : 0 < r.load nodeIP := by
  unfold load
  split
  · norm_num
  · split
    · norm_num
    · rename_i busy
      rw [not_or, not_lt] at busy
      exact lt_of_le_of_ne busy.1 (Ne.symm busy.2)

theorem p2c_distribution (r : P2CRouter K) :
    IsDistribution ((r.computing c localIP).map PathInfo.rtt) := by
  have weights : (r.computing c localIP).map PathInfo.rtt =
      shares ((collectNodes c localIP r.nodeTel).map fun nodeIP => 1 / r.load nodeIP) := by
    simp only [P2CRouter.computing, shares, List.map_map]
    rfl
  rw [weights]
  exact shares_map_isDistribution (fun nodeIP => one_div_pos.mpr (r.load_pos nodeIP))
    (collectNodes_ne_nil c localIP r.nodeTel)

theorem rawWeight_pos (combined : K) : 0 < EWMARouter.rawWeight combined := by
  unfold EWMARouter.rawWeight
  split
  · rename_i pos
    exact one_div_pos.mpr pos
  · exact one_pos

theorem ewma_distribution (r : EWMARouter K) (some : (r.computing c localIP source).1 ≠ []) :
    IsDistribution ((r.computing c localIP source).1.map PathInfo.rtt) := by
  unfold EWMARouter.computing at some ⊢
  generalize r.collected c localIP source = st at some ⊢
  obtain ⟨r', candidates⟩ := st
  dsimp only at some ⊢
  generalize Sort.exchangeSort r'.combined candidates = candidates at some ⊢
  have weights : (candidates.map fun c => (⟨[c.nodeIp], EWMARouter.rawWeight (r'.combined c) /
      (candidates.map fun c => EWMARouter.rawWeight (r'.combined c)).sum, r'.combined c⟩ :
        PathInfo K)).map PathInfo.rtt =
      shares (candidates.map fun c => EWMARouter.rawWeight (r'.combined c)) := by
    simp only [shares, List.map_map]
    rfl
  have candidates_ne : candidates ≠ [] := fun none => some (List.map_eq_nil_iff.mpr none)
  rw [weights]
  exact shares_map_isDistribution (fun _ => rawWeight_pos _) candidates_ne

/-! ## The joint router -/

theorem delayOf_pos (stats : Option (LastCongestion K)) : 0 < delayOf stats := by
  have cleaned : ∀ avgRT : K, 0 < if avgRT ≤ 0 then 100 else avgRT := by
    intro avgRT
    split
    · norm_num
    · rename_i pos
      exact not_le.mp pos
  exact cleaned _

theorem backlog_nonneg (tel : NodeTelemetry K) : 0 ≤ JointRouter.backlog tel := by
  unfold JointRouter.backlog
  split
  · norm_num
  · rename_i nonneg
    exact not_lt.mp nonneg

/-- The weighted sum over the nodes is one, and no node has weight zero: with the latency
out of account, a node that is idle would. -/
def AddsUp (localIP : String) (nodes : NodeTel K) (edgeAgg : EdgeAgg K) (source : EndPoint)
    (w : K × K) : Prop :=
  w.1 * ((scored localIP nodes).map fun x => JointRouter.backlog x.2).sum +
      w.2 * ((scored localIP nodes).map fun x =>
        delayOf (getNodeRT nodes edgeAgg source x.1)).sum = 1 ∧
    (w.2 = 0 → ∀ x ∈ scored localIP nodes, JointRouter.backlog x.2 ≠ 0)

omit [IsStrictOrderedRing K] in
theorem joint_perm (c : Choices) (localIP : String) (r : JointRouter K) (source : EndPoint) :
    ((r.computing c localIP source).map PathInfo.rtt).Perm
      ((scored localIP r.nodeTel).map fun x => r.score source x.1 x.2) := by
  rw [JointRouter.computing, List.map_map]
  exact rank_perm c localIP r.nodeTel (r.score source)

theorem joint_distribution_iff {r : JointRouter K} (cpu : 0 ≤ r.cpuWeight)
    (latency : 0 ≤ r.latencyWeight) (sum : r.cpuWeight + r.latencyWeight = 1) :
    IsDistribution ((r.computing c localIP source).map PathInfo.rtt) ↔
      AddsUp localIP r.nodeTel r.edgeAgg source (r.cpuWeight, r.latencyWeight) := by
  have total : ((scored localIP r.nodeTel).map fun x => r.score source x.1 x.2).sum =
      r.cpuWeight * ((scored localIP r.nodeTel).map fun x => JointRouter.backlog x.2).sum +
        r.latencyWeight * ((scored localIP r.nodeTel).map fun x =>
          delayOf (getNodeRT r.nodeTel r.edgeAgg source x.1)).sum := by
    simp only [JointRouter.score, JointRouter.delay, List.sum_map_add, List.sum_map_mul_left]
  have positive : ∀ x : String × NodeTelemetry K, 0 < r.score source x.1 x.2 ↔
      (r.latencyWeight = 0 → JointRouter.backlog x.2 ≠ 0) := by
    intro x
    have delay : 0 < r.delay source x.1 := delayOf_pos _
    by_cases alone : r.latencyWeight = 0
    · rw [alone, add_zero] at sum
      simp only [JointRouter.score, alone, sum, one_mul, zero_mul, add_zero, forall_const]
      exact lt_iff_le_and_ne.trans (by simp [backlog_nonneg, ne_comm])
    · have pos : 0 < r.latencyWeight := lt_of_le_of_ne latency (Ne.symm alone)
      refine iff_of_true ?_ fun none => absurd none alone
      exact add_pos_of_nonneg_of_pos (mul_nonneg cpu (backlog_nonneg x.2)) (mul_pos pos delay)
  rw [isDistribution_perm_iff (joint_perm c localIP r source), isDistribution_iff, AddsUp, total,
    and_comm]
  apply and_congr_right'
  simp only [List.forall_mem_map, positive]
  exact ⟨fun all alone x mem => all x mem alone, fun all x mem alone => all alone x mem⟩

/-- The weights, for the algorithms that are served by the joint router. -/
def jointWeights (algorithm : Algorithm) (cpuWeight latencyWeight : K) : Option (K × K) :=
  match algorithm with
  | .latencyOnly => some (0, 1)
  | .cpuOnly => some (1, 0)
  | .jointCpuLatency => some (normalised cpuWeight latencyWeight)
  | _ => none

omit [IsStrictOrderedRing K] in
theorem setWeights_new (nodes : NodeTel K) (edgeAgg : EdgeAgg K) (cpuWeight latencyWeight : K) :
    (newJointRouter edgeAgg nodes).setWeights cpuWeight latencyWeight =
      ⟨edgeAgg, nodes, (normalised cpuWeight latencyWeight).1,
        (normalised cpuWeight latencyWeight).2⟩ := by
  unfold JointRouter.setWeights normalised
  split
  · rfl
  · split
    · rfl
    · split <;> rfl

theorem normalised_spec (cpuWeight latencyWeight : K) :
    let w := normalised cpuWeight latencyWeight
    0 ≤ w.1 ∧ 0 ≤ w.2 ∧ w.1 + w.2 = 1 := by
  unfold normalised
  split
  · rename_i pos
    have total := add_pos pos.1 pos.2
    refine ⟨(div_pos pos.1 total).le, (div_pos pos.2 total).le, ?_⟩
    rw [← add_div]
    exact div_self total.ne'
  · split
    · norm_num
    · split <;> norm_num

/-- The router of an algorithm that has weights. -/
theorem initLastInterface_joint (nodes : NodeTel K) (edgeAgg : EdgeAgg K) {algorithm : Algorithm}
    {cpuWeight latencyWeight : K} {w : K × K}
    (h : jointWeights algorithm cpuWeight latencyWeight = some w) :
    initLastInterface nodes edgeAgg algorithm cpuWeight latencyWeight =
        .joint ⟨edgeAgg, nodes, w.1, w.2⟩ ∧
      0 ≤ w.1 ∧ 0 ≤ w.2 ∧ w.1 + w.2 = 1 := by
  have extreme : normalised (0 : K) 1 = (0, 1) ∧ normalised (1 : K) 0 = (1, 0) := by
    simp [normalised]
  cases algorithm with
  | latencyOnly =>
    obtain rfl := Option.some.inj h
    rw [initLastInterface, setWeights_new, extreme.1]
    exact ⟨rfl, by norm_num⟩
  | cpuOnly =>
    obtain rfl := Option.some.inj h
    rw [initLastInterface, setWeights_new, extreme.2]
    exact ⟨rfl, by norm_num⟩
  | jointCpuLatency =>
    obtain rfl := Option.some.inj h
    refine ⟨?_, normalised_spec cpuWeight latencyWeight⟩
    simp only [initLastInterface, setWeights_new]
    split
    · rfl
    · -- a negative weight leaves the router as it was made
      rename_i negative
      have default : normalised cpuWeight latencyWeight = (1 / 2, 1 / 2) := by
        unfold normalised
        rw [if_neg fun pos => negative ⟨pos.1.le, pos.2.le⟩,
          if_neg fun zero => negative ⟨zero.1.ge, zero.2.le⟩,
          if_neg fun zero => negative ⟨zero.2.le, zero.1.ge⟩]
      rw [default]
      rfl
  | lyapunov | p2c | ewmaBased => cases h

/-- **Last-mile weights are a distribution** exactly if the algorithm is one of those that
divide by the sum, no node is scored, or the scores happen to add up to one. -/
theorem weights_distribution_iff {exp : K → K} (exp_pos : ∀ x, 0 < exp x) (algorithm : Algorithm)
    (cpuWeight latencyWeight : K) (c : Choices) (localIP : String) (nodes : NodeTel K)
    (edgeAgg : EdgeAgg K) (source : EndPoint) :
    let paths := (initLastInterface nodes edgeAgg algorithm cpuWeight latencyWeight).computing exp c
      localIP source
    (paths ≠ [] → IsDistribution (paths.map PathInfo.rtt)) ↔
      ∀ w ∈ jointWeights algorithm cpuWeight latencyWeight,
        scored localIP nodes ≠ [] → AddsUp localIP nodes edgeAgg source w := by
  intro paths
  cases weights : jointWeights algorithm cpuWeight latencyWeight with
  | some w =>
    obtain ⟨router, cpu, latency, sum⟩ := initLastInterface_joint nodes edgeAgg weights
    have joint : paths = (⟨edgeAgg, nodes, w.1, w.2⟩ : JointRouter K).computing c localIP source := by
      simp only [paths, router]
      rfl
    have some_iff : paths ≠ [] ↔ scored localIP nodes ≠ [] := by
      have length := (joint_perm c localIP ⟨edgeAgg, nodes, w.1, w.2⟩ source).length_eq
      rw [← joint, List.length_map, List.length_map] at length
      rw [← List.length_pos_iff, length, List.length_pos_iff]
    rw [some_iff, joint]
    simp only [Option.mem_some_iff, forall_eq']
    exact imp_congr_right fun _ => joint_distribution_iff cpu latency sum
  | none =>
    refine iff_of_true (fun more => ?_) nofun
    cases algorithm with
    | lyapunov => exact lyapunov_distribution exp_pos _ more
    | p2c => exact p2c_distribution _
    | ewmaBased =>
      simp only [paths, initLastInterface] at more ⊢
      split at more
      · rename_i set_
        rw [if_pos set_]
        exact ewma_distribution _ more
      · rename_i unset_
        rw [if_neg unset_]
        exact ewma_distribution _ more
    | latencyOnly | cpuOnly | jointCpuLatency => cases weights

/-- Two nodes, with half their CPU in use and a quarter, 30 and 50 milliseconds away. -/
def twoNodes : NodeTel ℚ :=
  ((∅ : NodeTel ℚ).insert "10.0.0.1" ⟨"10.0.0.1", "Asia", ⟨50, 0, 2⟩⟩).insert "10.0.0.2"
    ⟨"10.0.0.2", "Asia", ⟨25, 0, 2⟩⟩

def twoDelays : EdgeAgg ℚ := (∅ : EdgeAgg ℚ).insert "Seoul-10.0.0.1" ⟨3, 30⟩

def seoul : EndPoint := ⟨"1.2.3.4", "Asia", "KR", "Seoul"⟩

/-- The joint algorithm gives the nodes the weights 75/2 and 40. -/
theorem joint_weights_raw :
    ((initLastInterface twoNodes twoDelays .jointCpuLatency (1 / 2) (1 / 2)).computing (fun _ => 1)
      (fun _ _ => 1) "10.0.0.9" seoul).map PathInfo.rtt = [75 / 2, 40] ∧
    ¬ IsDistribution (((initLastInterface twoNodes twoDelays .jointCpuLatency (1 / 2)
      (1 / 2)).computing (fun _ => 1) (fun _ _ => 1) "10.0.0.9" seoul).map PathInfo.rtt) := by
  have raw : ((initLastInterface twoNodes twoDelays .jointCpuLatency (1 / 2) (1 / 2)).computing
      (fun _ => 1) (fun _ _ => 1) "10.0.0.9" seoul).map PathInfo.rtt = [75 / 2, 40] := by
    decide +kernel
  refine ⟨raw, fun distribution => ?_⟩
  have sum := distribution.sum
  rw [raw] at sum
  norm_num at sum

theorem p2c_weights_third :
    ((initLastInterface twoNodes twoDelays .p2c 0 0).computing (fun _ => 1) (fun _ _ => 1) "10.0.0.9"
      seoul).map PathInfo.rtt = [2 / 3, 1 / 3] ∧
    IsDistribution (((initLastInterface twoNodes twoDelays .p2c 0 0).computing (fun _ => 1)
      (fun _ _ => 1) "10.0.0.9" seoul).map PathInfo.rtt) :=
  ⟨by decide +kernel, (weights_distribution_iff (fun _ => one_pos) .p2c 0 0 (fun _ _ => 1) "10.0.0.9"
    twoNodes twoDelays seoul).mpr nofun (by decide +kernel)⟩

end SkyAccel.LastMile
