import SkyAccel.LastMile.Shares

/-!
# Dominated nodes

A node with no more CPU usage and no more delay than another one never scores worse. For
the joint router this needs weights that are not negative, whatever sequence of `SetWeights`
led to them (`weighted_setAll`); for Lyapunov, penalties that grow with the exponential.
-/

namespace SkyAccel.LastMile

open Averages

/-! ## Ranking -/

section
variable {K : Type} [LinearOrder K] {nodes : NodeTel K}

/-- The score of the node under an address. -/
def scoreAt [Zero K] (nodes : NodeTel K) (score : String → NodeTelemetry K → K) (ip : String) : K :=
  ((nodes.lookup ip).map (score ip)).getD 0

omit [LinearOrder K] in
theorem scoreAt_eq [Zero K] (score : String → NodeTelemetry K → K) {ip : String}
    {tel : NodeTelemetry K} (found : nodes.lookup ip = some tel) :
    scoreAt nodes score ip = score ip tel := by
  simp [scoreAt, found]

/-- Every node is ranked. -/
theorem KeyedByIP.rank_perm [Zero K] (keyed : KeyedByIP nodes)
    (score : String → NodeTelemetry K → K) (c : Choices) (localIP : String) :
    (rank nodes score (collectNodes c localIP nodes)).Perm
      (nodes.keys.map fun ip => ⟨ip, scoreAt nodes score ip⟩) := by
  refine (List.perm_insertionSort _ _).trans ?_
  apply keyed.filterMap_perm
  · intro ip known
    obtain ⟨tel, found⟩ := Dict.mem_iff.mp known
    simp [found, scoreAt]
  · intro ip unknown
    simp [AList.lookup_eq_none.mpr unknown]

theorem rank_sorted (nodes : NodeTel K) (score : String → NodeTelemetry K → K)
    (nodeIps : List String) :
    (rank nodes score nodeIps).Pairwise fun a b => a.score ≤ b.score := by
  have : Std.Total fun a b : NodeScore K => a.score ≤ b.score := ⟨fun a b => le_total _ _⟩
  have : IsTrans (NodeScore K) fun a b => a.score ≤ b.score := ⟨fun _ _ _ => le_trans⟩
  exact List.pairwise_insertionSort _ _

end

variable {K : Type} [Field K] [LinearOrder K]

/-! ## CPU and latency together -/

/-- The weights of a joint router. -/
structure Weighted (r : JointRouter K) : Prop where
  cpu : 0 ≤ r.cpuWeight
  latency : 0 ≤ r.latencyWeight
  sum : r.cpuWeight + r.latencyWeight = 1

/-- The router after a sequence of calls of `SetWeights`. -/
def JointRouter.setAll (r : JointRouter K) (calls : List (K × K)) : JointRouter K :=
  calls.foldl (fun r w => r.setWeights w.1 w.2) r

/-- Arguments that make no sense change nothing. -/
theorem setWeights_cases (r : JointRouter K) (cpuWeight latencyWeight : K) :
    r.setWeights cpuWeight latencyWeight = r ∨
      r.setWeights cpuWeight latencyWeight =
        ⟨r.edgeAgg, r.nodeTel, (normalised cpuWeight latencyWeight).1,
          (normalised cpuWeight latencyWeight).2⟩ := by
  unfold JointRouter.setWeights normalised
  split
  · exact .inr rfl
  · split
    · exact .inr rfl
    · split
      · exact .inr rfl
      · exact .inl rfl

theorem joint_listed (r : JointRouter K) (keyed : KeyedByIP r.nodeTel) (c : Choices)
    (localIP : String) (source : EndPoint) :
    (r.computing c localIP source).Perm
      (r.nodeTel.keys.map fun ip => ⟨[ip], scoreAt r.nodeTel (r.score source) ip, 0⟩) := by
  have ranked := (keyed.rank_perm (r.score source) c localIP).map fun item =>
    (⟨[item.nodeIp], item.score, 0⟩ : PathInfo K)
  simpa [JointRouter.computing, Function.comp_def] using ranked

theorem joint_sorted (r : JointRouter K) (c : Choices) (localIP : String) (source : EndPoint) :
    (r.computing c localIP source).Pairwise fun p q => p.rtt ≤ q.rtt := by
  simpa [JointRouter.computing, List.pairwise_map] using rank_sorted r.nodeTel (r.score source) _

section
variable [IsStrictOrderedRing K]

theorem Weighted.setWeights {r : JointRouter K} (h : Weighted r) (cpuWeight latencyWeight : K) :
    Weighted (r.setWeights cpuWeight latencyWeight) := by
  obtain same | changed := setWeights_cases r cpuWeight latencyWeight
  · rwa [same]
  · rw [changed]
    obtain ⟨cpu, latency, sum⟩ := normalised_spec cpuWeight latencyWeight
    exact ⟨cpu, latency, sum⟩

/-- Any sequence of calls leaves weights, and the maps as they are. -/
theorem weighted_setAll (nodes : NodeTel K) (edgeAgg : EdgeAgg K) (calls : List (K × K)) :
    Weighted ((newJointRouter edgeAgg nodes).setAll calls) ∧
      ((newJointRouter edgeAgg nodes).setAll calls).nodeTel = nodes := by
  induction calls using List.reverseRecOn with
  | nil =>
    refine ⟨⟨?_, ?_, ?_⟩, rfl⟩ <;> norm_num [JointRouter.setAll, newJointRouter]
  | append_singleton calls w ih =>
    have last : (newJointRouter edgeAgg nodes).setAll (calls ++ [w]) =
        ((newJointRouter edgeAgg nodes).setAll calls).setWeights w.1 w.2 := by
      simp [JointRouter.setAll, List.foldl_append]
    rw [last]
    refine ⟨ih.1.setWeights w.1 w.2, ?_⟩
    obtain same | changed := setWeights_cases ((newJointRouter edgeAgg nodes).setAll calls) w.1 w.2
    · rw [same]
      exact ih.2
    · rw [changed]
      exact ih.2

theorem Weighted.score_le {r : JointRouter K} (h : Weighted r) {source : EndPoint} {a b : String}
    {telA telB : NodeTelemetry K} (cpu : JointRouter.backlog telA ≤ JointRouter.backlog telB)
    (delay : r.delay source a ≤ r.delay source b) :
    r.score source a telA ≤ r.score source b telB :=
  add_le_add (mul_le_mul_of_nonneg_left cpu h.cpu) (mul_le_mul_of_nonneg_left delay h.latency)

end

/-! ## Lyapunov -/

namespace LyapunovSolver

/-- The CPU usage of a node as it is penalised. -/
def backlog (tel : NodeTelemetry K) : K := max tel.cpu.usage 0 + |tel.cpu.loadDelta|

def delay (l : LyapunovSolver K) (source : EndPoint) (nodeIp : String) : K :=
  delayOf (getNodeRT l.nodeTel l.edgeAgg source nodeIp)

theorem score_eq (exp : K → K) (l : LyapunovSolver K) (source : EndPoint) (nodeIp : String)
    (tel : NodeTelemetry K) :
    l.score exp source nodeIp tel =
      computeCPUPenalty exp (backlog tel) tel.cpu.logicalCore +
        computeDelayPenalty exp (l.delay source nodeIp)
          (getLatencyConfig source.continent tel.continent) := by
  have usage : (if tel.cpu.usage < 0 then 0 else tel.cpu.usage) = max tel.cpu.usage 0 := by
    split
    · rename_i negative
      exact (max_eq_right negative.le).symm
    · rename_i nonneg
      exact (max_eq_left (not_lt.mp nonneg)).symm
  simp only [score, usage, one_mul, backlog, delay]

end LyapunovSolver

section
variable [IsStrictOrderedRing K] {exp : K → K}

/-- A penalty grows with what it penalises. -/
theorem exp_penalty_le (mono : StrictMono exp) {x y mid alpha : K} (alpha_pos : 0 < alpha)
    (mid_pos : 0 < mid) (le : x ≤ y) :
    exp (alpha * (x / mid - 1)) ≤ exp (alpha * (y / mid - 1)) := by
  apply mono.monotone
  gcongr

theorem computeCPUPenalty_le (mono : StrictMono exp) {x y : K} (cores : Int) (le : x ≤ y) :
    computeCPUPenalty exp x cores ≤ computeCPUPenalty exp y cores := by
  have thresholds : 0 < (getCPUThresholds cores : K × K).1 ∧
      0 < (getCPUThresholds cores : K × K).2 := by
    unfold getCPUThresholds
    split <;> norm_num
  obtain ⟨mid, sensitivity⟩ := thresholds
  simp only [computeCPUPenalty, if_neg (not_le.mpr sensitivity), if_neg (not_le.mpr mid)]
  exact exp_penalty_le mono sensitivity mid le

theorem computeDelayPenalty_le (mono : StrictMono exp) {x y : K} (good : K) (le : x ≤ y) :
    computeDelayPenalty exp x good ≤ computeDelayPenalty exp y good := by
  have beta : (0 : K) < 1 / 5 := by norm_num
  unfold computeDelayPenalty
  split
  · exact exp_penalty_le mono beta (by norm_num) le
  · rename_i positive
    exact exp_penalty_le mono beta (not_le.mp positive) le

theorem lyapunov_score_le (mono : StrictMono exp) {l : LyapunovSolver K} {source : EndPoint}
    {a b : String} {telA telB : NodeTelemetry K}
    (cores : telA.cpu.logicalCore = telB.cpu.logicalCore)
    (continent : telA.continent = telB.continent)
    (cpu : LyapunovSolver.backlog telA ≤ LyapunovSolver.backlog telB)
    (delay : l.delay source a ≤ l.delay source b) :
    l.score exp source a telA ≤ l.score exp source b telB := by
  simp only [LyapunovSolver.score_eq, cores, continent]
  exact add_le_add (computeCPUPenalty_le mono _ cpu) (computeDelayPenalty_le mono _ delay)

theorem lyapunov_perm (exp_pos : ∀ x, 0 < exp x) {l : LyapunovSolver K}
    (keyed : KeyedByIP l.nodeTel) (c : Choices) (localIP : String) (source : EndPoint) :
    (l.computing exp c localIP source).Perm
      (split l.nodeTel (fun ip => exp (-scoreAt l.nodeTel (l.score exp source) ip / 2))
        (scoreAt l.nodeTel (l.score exp source))) := by
  have ranked := keyed.rank_perm (l.score exp source) c localIP
  have paths := lyapunov_eq exp_pos l c localIP source
  dsimp only at paths
  rw [paths, share_perm ranked]
  have listed := ranked.map fun item => (⟨[item.nodeIp], share (fun c => exp (-c.score / 2))
    (l.nodeTel.keys.map fun ip => ⟨ip, scoreAt l.nodeTel (l.score exp source) ip⟩) item,
      item.score⟩ : PathInfo K)
  simpa [split, share, Function.comp_def] using listed

theorem lyapunov_sorted (exp_pos : ∀ x, 0 < exp x) (l : LyapunovSolver K) (c : Choices)
    (localIP : String) (source : EndPoint) :
    (l.computing exp c localIP source).Pairwise fun p q => p.rawRTT ≤ q.rawRTT := by
  have paths := lyapunov_eq exp_pos l c localIP source
  dsimp only at paths
  rw [paths, List.pairwise_map]
  exact rank_sorted l.nodeTel (l.score exp source) _

end

/-! ## Both routers -/

/-- **A dominated node is never ranked better.** -/
theorem dominated_never_better [IsStrictOrderedRing K] {exp : K → K} (exp_pos : ∀ x, 0 < exp x)
    (exp_mono : StrictMono exp) {nodes : NodeTel K} (keyed : KeyedByIP nodes) (edgeAgg : EdgeAgg K)
    (localIP : String) (source : EndPoint) (c : Choices) :
    (∀ calls : List (K × K), let r := (newJointRouter edgeAgg nodes).setAll calls
      let paths := r.computing c localIP source
      Weighted r ∧ Lists nodes paths ∧ paths.Pairwise (fun p q => p.rtt ≤ q.rtt) ∧
      ∀ a b telA telB, nodes.lookup a = some telA → nodes.lookup b = some telB →
        JointRouter.backlog telA ≤ JointRouter.backlog telB →
        r.delay source a ≤ r.delay source b →
        ∀ p ∈ paths, ∀ q ∈ paths, p.hops = [a] → q.hops = [b] → p.rtt ≤ q.rtt) ∧
    let l : LyapunovSolver K := ⟨edgeAgg, nodes⟩
    let paths := l.computing exp c localIP source
    Lists nodes paths ∧ paths.Pairwise (fun p q => p.rawRTT ≤ q.rawRTT) ∧
      ∀ a b telA telB, nodes.lookup a = some telA → nodes.lookup b = some telB →
        telA.cpu.logicalCore = telB.cpu.logicalCore → telA.continent = telB.continent →
        LyapunovSolver.backlog telA ≤ LyapunovSolver.backlog telB →
        l.delay source a ≤ l.delay source b →
        ∀ p ∈ paths, ∀ q ∈ paths, p.hops = [a] → q.hops = [b] →
          p.rawRTT ≤ q.rawRTT ∧ q.rtt ≤ p.rtt := by
  constructor
  · intro calls r paths
    obtain ⟨weighted, maps⟩ := weighted_setAll nodes edgeAgg calls
    have listed := joint_listed r (maps ▸ keyed) c localIP source
    refine ⟨weighted, ?_, joint_sorted r c localIP source, ?_⟩
    · have hops := listed.map PathInfo.hops
      rw [maps] at hops
      simpa [Lists, Function.comp_def] using hops
    · intro a b telA telB foundA foundB cpu delay p hp q hq atA atB
      have score : ∀ p ∈ paths, ∀ ip tel, p.hops = [ip] → nodes.lookup ip = some tel →
          p.rtt = r.score source ip tel := by
        intro p mem ip tel hops found
        obtain ⟨ip', -, rfl⟩ := List.mem_map.mp (listed.mem_iff.mp mem)
        obtain rfl : ip' = ip := by simpa using hops
        exact scoreAt_eq _ (maps ▸ found)
      rw [score p hp a telA atA foundA, score q hq b telB atB foundB]
      exact weighted.score_le cpu delay
  · intro l paths
    have listed : paths.Perm (split nodes _ _) := lyapunov_perm exp_pos keyed c localIP source
    refine ⟨lists_of_split listed, lyapunov_sorted exp_pos l c localIP source, ?_⟩
    intro a b telA telB foundA foundB cores continent cpu delay p hp q hq atA atB
    have le := lyapunov_score_le exp_mono cores continent cpu delay
    rw [← scoreAt_eq (l.score exp source) foundA, ← scoreAt_eq (l.score exp source) foundB] at le
    constructor
    · rw [(mem_of_split listed hp atA).2.2, (mem_of_split listed hq atB).2.2]
      exact le
    · apply rtt_le_of_split listed (fun _ => exp_pos _) hp hq atA atB
      apply exp_mono.monotone
      gcongr

/-- A function that grows as the exponential does, as far as the proofs ask. -/
def growth (x : ℚ) : ℚ := if x ≤ 0 then 1 / (1 - x) else 1 + x

theorem growth_pos (x : ℚ) : 0 < growth x := by
  unfold growth
  split
  · have : 0 < 1 - x := by linarith
    positivity
  · linarith

theorem growth_strictMono : StrictMono growth := by
  intro x y less
  have below : ∀ z : ℚ, z ≤ 0 → 1 / (1 - z) ≤ 1 := by
    intro z nonpos
    rw [div_le_one (by linarith)]
    linarith
  unfold growth
  split
  · rename_i nonpos
    split
    · rename_i nonpos'
      exact one_div_lt_one_div_of_lt (by linarith) (by linarith)
    · linarith [below x nonpos]
  · rename_i positive
    rw [if_neg (by linarith)]
    linarith

/-- A node with half its CPU in use, and one with a quarter that is nearer. -/
def nearAndFar : NodeTel ℚ :=
  ((∅ : NodeTel ℚ).insert "10.0.0.1" ⟨"10.0.0.1", "Asia", ⟨25, 0, 2⟩⟩).insert "10.0.0.2"
    ⟨"10.0.0.2", "Asia", ⟨50, -1, 2⟩⟩

theorem far_never_better :
    Weighted ((newJointRouter twoDelays nearAndFar).setAll [(3, 1), (-1, 2), (0, 0)]) ∧
    let paths := (⟨twoDelays, nearAndFar⟩ : LyapunovSolver ℚ).computing growth (fun _ _ => 1)
      "10.0.0.9" seoul
    ∃ p ∈ paths, ∃ q ∈ paths, p.hops = ["10.0.0.1"] ∧ q.hops = ["10.0.0.2"] ∧
      p.rawRTT ≤ q.rawRTT ∧ q.rtt ≤ p.rtt := by
  have ranked := dominated_never_better growth_pos growth_strictMono
    (show KeyedByIP nearAndFar by decide +kernel) twoDelays "10.0.0.9" seoul fun _ _ => 1
  refine ⟨(ranked.1 [(3, 1), (-1, 2), (0, 0)]).1, ?_⟩
  intro paths
  obtain ⟨p, hp, near⟩ : ∃ p ∈ paths, p.hops = ["10.0.0.1"] := by decide +kernel
  obtain ⟨q, hq, far⟩ : ∃ q ∈ paths, q.hops = ["10.0.0.2"] := by decide +kernel
  exact ⟨p, hp, q, hq, near, far, ranked.2.2.2 "10.0.0.1" "10.0.0.2" _ _ rfl rfl rfl rfl
    (by decide +kernel) (by decide +kernel) p hp q hq near far⟩

end SkyAccel.LastMile
