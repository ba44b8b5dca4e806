import SkyAccel.LastMile.Distribution

/-!
# Splitting the traffic

Abstractly, an answer to a user is a `split`: every node once, with a share of the traffic
in proportion to its weight. What P2C and the moving averages answer is a split in some
order (`p2c_perm`, `ewma_perm`), by weights that the order in which the loops meet the nodes
plays no part in. From that follow the shares of both routers (`traffic_shares`).
-/

namespace SkyAccel.LastMile

open Averages

/-! ## Nodes under their addresses -/

section
variable {K : Type} {nodes : NodeTel K}

/-- As `GraphManager` keeps the nodes. -/
def KeyedByIP (nodes : NodeTel K) : Prop :=
  ∀ ip tel, nodes.lookup ip = some tel → tel.publicIP = ip

theorem keyedByIP_iff : KeyedByIP nodes ↔ ∀ entry ∈ nodes.entries, entry.2.publicIP = entry.1 := by
  simp only [KeyedByIP, Dict.lookup_eq_some]
  exact ⟨fun keyed entry mem => keyed entry.1 entry.2 mem, fun all ip tel mem => all ⟨ip, tel⟩ mem⟩

instance : Decidable (KeyedByIP nodes) := decidable_of_iff' _ keyedByIP_iff

theorem KeyedByIP.values (keyed : KeyedByIP nodes) :
    nodes.values.map NodeTelemetry.publicIP = nodes.keys := by
  simp only [Dict.values, AList.keys, List.keys, List.map_map]
  apply List.map_congr_left
  rintro ⟨ip, tel⟩ mem
  exact keyed ip tel (Dict.lookup_eq_some.mpr mem)

theorem KeyedByIP.collectNodes_perm (keyed : KeyedByIP nodes) (nonempty : nodes.keys ≠ [])
    (c : Choices) (localIP : String) : (collectNodes c localIP nodes).Perm nodes.keys := by
  have listed := LastMile.collectNodes_perm c localIP nodes
  have more : nodes.values ≠ [] := by
    rw [← keyed.values] at nonempty
    exact fun none => nonempty (by rw [none, List.map_nil])
  rwa [addresses, if_neg more, keyed.values] at listed

/-- What a router makes of the nodes with telemetry. -/
theorem KeyedByIP.filterMap_perm (keyed : KeyedByIP nodes) (c : Choices) (localIP : String)
    {β : Type} {f : String → Option β} {g : String → β} (known : ∀ ip ∈ nodes, f ip = some (g ip))
    (unknown : ∀ ip ∉ nodes, f ip = none) :
    ((collectNodes c localIP nodes).filterMap f).Perm (nodes.keys.map g) := by
  have listed : nodes.keys.filterMap f = nodes.keys.map g := by
    rw [← List.filterMap_eq_map]
    exact List.filterMap_congr known
  rw [← listed]
  by_cases none : nodes.keys = []
  · -- the node's own address is looked up in vain
    have alone : collectNodes c localIP nodes = [localIP] := by
      have empty : nodes.values.map NodeTelemetry.publicIP = [] := keyed.values.trans none
      simp [collectNodes, empty, (shuffle_perm c 0 []).length_eq]
    have absent : localIP ∉ nodes := by simp [AList.mem_keys, none]
    simp [alone, none, unknown localIP absent]
  · exact (keyed.collectNodes_perm none c localIP).filterMap f

/-- Each node of the map once. -/
def Lists (nodes : NodeTel K) (paths : List (PathInfo K)) : Prop :=
  (paths.map PathInfo.hops).Perm (nodes.keys.map fun ip => [ip])

end

variable {K : Type} [Field K] [LinearOrder K]

/-! ## Splits -/

/-- Each node with its share by weight. -/
def split (nodes : NodeTel K) (weight rawRTT : String → K) : List (PathInfo K) :=
  nodes.keys.map fun ip => ⟨[ip], share weight nodes.keys ip, rawRTT ip⟩

/-- The shares of the traffic, for every order in which the loops meet the nodes. -/
structure SplitsTraffic (nodes : NodeTel K) (paths : Choices → List (PathInfo K)) : Prop where
  each : ∀ c, Lists nodes (paths c)
  distribution : ∀ c, IsDistribution ((paths c).map PathInfo.rtt)
  order : ∀ c c', ∀ p ∈ paths c, ∀ p' ∈ paths c', p'.hops = p.hops → p'.rtt = p.rtt

section
variable {nodes : NodeTel K} {weight rawRTT : String → K} {paths : List (PathInfo K)}

omit [LinearOrder K] in
theorem mem_of_split (h : paths.Perm (split nodes weight rawRTT)) {p : PathInfo K} (mem : p ∈ paths)
    {ip : String} (hops : p.hops = [ip]) :
    ip ∈ nodes ∧ p.rtt = share weight nodes.keys ip ∧ p.rawRTT = rawRTT ip := by
  obtain ⟨ip', listed, rfl⟩ := List.mem_map.mp (h.mem_iff.mp mem)
  obtain rfl : ip' = ip := by simpa using hops
  exact ⟨AList.mem_keys.mpr listed, rfl, rfl⟩

omit [LinearOrder K] in
theorem exists_hops_of_split (h : paths.Perm (split nodes weight rawRTT)) {p : PathInfo K}
    (mem : p ∈ paths) : ∃ ip, p.hops = [ip] := by
  obtain ⟨ip, -, rfl⟩ := List.mem_map.mp (h.mem_iff.mp mem)
  exact ⟨ip, rfl⟩

omit [LinearOrder K] in
theorem lists_of_split (h : paths.Perm (split nodes weight rawRTT)) : Lists nodes paths := by
  have listed := h.map PathInfo.hops
  simpa [Lists, split, Function.comp_def] using listed

/-- A node with a larger weight gets a share at least as large. -/
theorem rtt_le_of_split [IsStrictOrderedRing K] (h : paths.Perm (split nodes weight rawRTT))
    (pos : ∀ ip, 0 < weight ip) {p q : PathInfo K} (hp : p ∈ paths) (hq : q ∈ paths) {a b : String}
    (atA : p.hops = [a]) (atB : q.hops = [b]) (le : weight b ≤ weight a) : q.rtt ≤ p.rtt := by
  rw [(mem_of_split h hp atA).2.1, (mem_of_split h hq atB).2.1]
  exact share_le_share pos nodes.keys le

theorem splitsTraffic_of_split [IsStrictOrderedRing K] {paths : Choices → List (PathInfo K)}
    (h : ∀ c, (paths c).Perm (split nodes weight rawRTT)) (pos : ∀ ip, 0 < weight ip)
    (nonempty : nodes.keys ≠ []) : SplitsTraffic nodes paths where
  each c := lists_of_split (h c)
  distribution c := by
    have weights := (h c).map PathInfo.rtt
    have shared : (split nodes weight rawRTT).map PathInfo.rtt =
        shares (nodes.keys.map weight) := by
      simp [split, shares_map, Function.comp_def]
    rw [shared] at weights
    exact (isDistribution_perm_iff weights).mpr (shares_map_isDistribution pos nonempty)
  order c c' p mem p' mem' same := by
    obtain ⟨ip, hops⟩ := exists_hops_of_split (h c) mem
    rw [(mem_of_split (h c) mem hops).2.1, (mem_of_split (h c') mem' (same.trans hops)).2.1]

end

/-! ## Power of two choices -/

/-- The load of a node as its share is computed from it. -/
def effectiveLoad (tel : NodeTelemetry K) : K :=
  if tel.cpu.usage ≤ 0 then (100 : ℕ) else tel.cpu.usage

theorem P2CRouter.load_eq {r : P2CRouter K} {ip : String} {tel : NodeTelemetry K}
    (found : r.nodeTel.lookup ip = some tel) : r.load ip = effectiveLoad tel := by
  simp only [load, found, effectiveLoad, le_iff_lt_or_eq, Nat.cast_ofNat]

theorem p2c_perm {r : P2CRouter K} (keyed : KeyedByIP r.nodeTel) (nonempty : r.nodeTel.keys ≠ [])
    (c : Choices) (localIP : String) :
    (r.computing c localIP).Perm (split r.nodeTel (fun ip => 1 / r.load ip) fun _ => 0) := by
  have order := keyed.collectNodes_perm nonempty c localIP
  have paths : r.computing c localIP = (collectNodes c localIP r.nodeTel).map fun ip =>
      ⟨[ip], share (fun ip => 1 / r.load ip) (collectNodes c localIP r.nodeTel) ip, 0⟩ := by
    simp only [P2CRouter.computing, List.map_map, share, Function.comp_def]
  rw [paths, share_perm order]
  exact order.map _

/-! ## Moving averages -/

namespace EWMARouter

/-- The candidate that the first loop makes of a node, from the averages before it. -/
def averaged (r : EWMARouter K) (source : EndPoint) (ip : String) : Option (Candidate K) :=
  (r.nodeTel.lookup ip).map fun tel =>
    let cpu := observedCPU tel
    let latency := r.observedLatency source ip
    ⟨ip, cpu, latency, smooth (r.cpuEWMA.lookup ip) (r.cpuAlpha, cpu),
      smooth (r.latEWMA.lookup ip) (r.latAlpha, latency)⟩

/-- The score of a node by the averages of a router. -/
def score (r : EWMARouter K) (ip : String) : K :=
  r.lambda * r.getCPUEWMA ip + (1 - r.lambda) * r.getLatEWMA ip

/-- The score that a call gives a node. -/
def nextScore (r : EWMARouter K) (source : EndPoint) (ip : String) : K :=
  ((r.averaged source ip).map r.combined).getD 0

end EWMARouter

omit [LinearOrder K] in
theorem lookup_updateEWMA (alpha : K) (averages : Dict String K) (ip : String) (x : K)
    (k : String) : (updateEWMA alpha averages ip x).lookup k =
      if k = ip then some (smooth (averages.lookup ip) (alpha, x)) else averages.lookup k := by
  unfold updateEWMA
  split
  · rename_i none
    simp [Dict.lookup_insert, none, smooth]
  · rename_i current found
    simp [Dict.lookup_insert, found, smooth]

/-- The state of the first loop after the given nodes: the candidates are averaged from what
the router had before the loop, and the averages of the other nodes are as they were. -/
structure Averaged (r : EWMARouter K) (source : EndPoint) (ips : List String)
    (st : EWMARouter K × List (Candidate K)) : Prop where
  settings : st.1 = { r with cpuEWMA := st.1.cpuEWMA, latEWMA := st.1.latEWMA }
  candidates : st.2 = ips.filterMap (r.averaged source)
  cpu : ∀ cand ∈ st.2, st.1.cpuEWMA.lookup cand.nodeIp = some cand.cpuEwma
  latency : ∀ cand ∈ st.2, st.1.latEWMA.lookup cand.nodeIp = some cand.latEwma
  others : ∀ ip ∉ ips, st.1.cpuEWMA.lookup ip = r.cpuEWMA.lookup ip ∧
    st.1.latEWMA.lookup ip = r.latEWMA.lookup ip

section
variable {r : EWMARouter K} {source : EndPoint} {ips : List String}
  {st : EWMARouter K × List (Candidate K)}

theorem averaged_nodeIp {ip : String} {cand : Candidate K}
    (h : r.averaged source ip = some cand) : cand.nodeIp = ip := by
  obtain ⟨tel, -, rfl⟩ := Option.map_eq_some_iff.mp h
  rfl

/-- The averages play no part in what is observed. -/
theorem collect_eq (r : EWMARouter K) (source : EndPoint) (cpu lat : Dict String K)
    (cands : List (Candidate K)) {ip : String} {cand : Candidate K}
    (candidate : ({ r with cpuEWMA := cpu, latEWMA := lat }).averaged source ip = some cand) :
    EWMARouter.collect source ({ r with cpuEWMA := cpu, latEWMA := lat }, cands) ip =
      ({ r with
          cpuEWMA := updateEWMA r.cpuAlpha cpu ip cand.cpuUsage
          latEWMA := updateEWMA r.latAlpha lat ip cand.latency }, cands ++ [cand]) := by
  obtain ⟨tel, found, rfl⟩ := Option.map_eq_some_iff.mp candidate
  simp only [EWMARouter.collect, found, EWMARouter.updateEWMACPU, EWMARouter.updateEWMALatency,
    EWMARouter.getCPUEWMA, EWMARouter.getLatEWMA, lookup_updateEWMA, if_pos, Option.getD_some]
  rfl

theorem exists_averaged (r : EWMARouter K) (source : EndPoint) {ip : String}
    (known : ip ∈ r.nodeTel) : ∃ cand, r.averaged source ip = some cand := by
  obtain ⟨tel, found⟩ := Dict.mem_iff.mp known
  simp [EWMARouter.averaged, found]

/-- What a later turn makes of a node that the loop has not met is what the first would. -/
theorem Averaged.averaged (h : Averaged r source ips st) {ip : String} (new : ip ∉ ips) :
    st.1.averaged source ip = r.averaged source ip := by
  obtain ⟨cpuBefore, latBefore⟩ := h.others ip new
  rw [EWMARouter.averaged, cpuBefore, latBefore, h.settings]
  rfl

/-- A turn for an address without telemetry. -/
theorem Averaged.skip (h : Averaged r source ips st) {ip : String}
    (unknown : r.averaged source ip = none) :
    Averaged r source (ips ++ [ip]) (EWMARouter.collect source st ip) := by
  have telemetry : st.1.nodeTel.lookup ip = none := by
    rw [h.settings]
    exact Option.map_eq_none_iff.mp unknown
  have skipped : EWMARouter.collect source st ip = st := by
    simp only [EWMARouter.collect, telemetry]
  rw [skipped]
  refine ⟨h.settings, ?_, h.cpu, h.latency, fun ip' other => h.others ip' ?_⟩
  · simpa [unknown] using h.candidates
  · exact fun mem => other (List.mem_append_left _ mem)

/-- One turn, for a node that the loop has not met. -/
theorem Averaged.collect (h : Averaged r source ips st) {ip : String} (new : ip ∉ ips) :
    Averaged r source (ips ++ [ip]) (EWMARouter.collect source st ip) := by
  cases candidate : r.averaged source ip with
  | none => exact h.skip candidate
  | some cand =>
    have current := (h.averaged new).trans candidate
    obtain ⟨r', cands⟩ := st
    obtain ⟨cpu, lat, rfl⟩ : ∃ cpu lat, r' = { r with cpuEWMA := cpu, latEWMA := lat } :=
      ⟨_, _, h.settings⟩
    have listed : cands = ips.filterMap (r.averaged source) := h.candidates
    -- the candidates that are there are other nodes
    have there : ∀ cand ∈ cands, cand.nodeIp ≠ ip := by
      rintro cand mem rfl
      rw [listed] at mem
      obtain ⟨ip', listed, candidate⟩ := List.mem_filterMap.mp mem
      exact new (averaged_nodeIp candidate ▸ listed)
    have here := averaged_nodeIp candidate
    have terms : cand.cpuEwma = smooth (cpu.lookup ip) (r.cpuAlpha, cand.cpuUsage) ∧
        cand.latEwma = smooth (lat.lookup ip) (r.latAlpha, cand.latency) := by
      obtain ⟨tel, -, rfl⟩ := Option.map_eq_some_iff.mp current
      exact ⟨rfl, rfl⟩
    rw [collect_eq r source cpu lat cands current]
    constructor
    case settings => rfl
    case candidates => simp [listed, candidate]
    case cpu =>
      intro cand' mem
      obtain old | rfl := by simpa using mem
      · simpa [lookup_updateEWMA, there cand' old] using h.cpu cand' old
      · simp [lookup_updateEWMA, here, terms.1]
    case latency =>
      intro cand' mem
      obtain old | rfl := by simpa using mem
      · simpa [lookup_updateEWMA, there cand' old] using h.latency cand' old
      · simp [lookup_updateEWMA, here, terms.2]
    case others =>
      intro ip' other
      obtain ⟨before, away⟩ : ip' ∉ ips ∧ ip' ≠ ip := by simpa using other
      simpa [lookup_updateEWMA, away] using h.others ip' before

/-- The whole loop, over distinct nodes. -/
theorem averaged_foldl (r : EWMARouter K) (source : EndPoint) {ips : List String}
    (distinct : ips.Nodup) :
    Averaged r source ips (ips.foldl (EWMARouter.collect source) (r, [])) := by
  induction ips using List.reverseRecOn with
  | nil => exact ⟨rfl, rfl, nofun, nofun, fun _ _ => ⟨rfl, rfl⟩⟩
  | append_singleton ips ip ih =>
    rw [List.nodup_append] at distinct
    obtain ⟨before, -, apart⟩ := distinct
    rw [List.foldl_append]
    exact (ih before).collect fun mem => apart ip mem ip (List.mem_singleton_self ip) rfl

theorem KeyedByIP.averaged (keyed : KeyedByIP r.nodeTel) (source : EndPoint) (c : Choices)
    (localIP : String) :
    Averaged r source (collectNodes c localIP r.nodeTel) (r.collected c localIP source) := by
  apply averaged_foldl
  by_cases none : r.nodeTel.keys = []
  · have listed := LastMile.collectNodes_perm c localIP r.nodeTel
    have empty : r.nodeTel.values = [] := by
      rw [← keyed.values] at none
      exact List.map_eq_nil_iff.mp none
    rw [addresses, if_pos empty] at listed
    exact listed.nodup_iff.mpr (List.nodup_singleton localIP)
  · exact (keyed.collectNodes_perm none c localIP).nodup_iff.mpr r.nodeTel.keys_nodup

theorem Averaged.lambda (h : Averaged r source ips st) : st.1.lambda = r.lambda := by
  rw [h.settings]

/-- A score is computed from the averages that the call leaves. -/
theorem Averaged.score (h : Averaged r source ips st) {ip : String} (mem : ip ∈ ips)
    (known : ip ∈ r.nodeTel) : r.nextScore source ip = st.1.score ip := by
  obtain ⟨cand, candidate⟩ := exists_averaged r source known
  have listed : cand ∈ st.2 := by
    rw [h.candidates]
    exact List.mem_filterMap.mpr ⟨ip, mem, candidate⟩
  have cpu := h.cpu cand listed
  have latency := h.latency cand listed
  rw [averaged_nodeIp candidate] at cpu latency
  simp [EWMARouter.nextScore, EWMARouter.score, EWMARouter.combined, EWMARouter.getCPUEWMA,
    EWMARouter.getLatEWMA, candidate, cpu, latency, h.lambda]

theorem ewma_perm (keyed : KeyedByIP r.nodeTel) (source : EndPoint) (c : Choices)
    (localIP : String) :
    (r.computing c localIP source).1.Perm
      (split r.nodeTel (fun ip => EWMARouter.rawWeight (r.nextScore source ip))
        (r.nextScore source)) := by
  have averaged := keyed.averaged source c localIP
  unfold EWMARouter.computing
  generalize r.collected c localIP source = st at averaged ⊢
  obtain ⟨r', cands⟩ := st
  have settings : r'.combined = r.combined := by
    have lambda : r'.lambda = r.lambda := averaged.lambda
    funext cand
    simp only [EWMARouter.combined, lambda]
  have listed : cands = (collectNodes c localIP r.nodeTel).filterMap (r.averaged source) :=
    averaged.candidates
  have sorted := Sort.exchangeSort_perm r.combined cands
  -- what is made of the candidates is made of the nodes
  have each : ∀ {β : Type} (make : Candidate K → β) (g : String → β),
      (∀ ip cand, r.averaged source ip = some cand → make cand = g ip) →
        ((Sort.exchangeSort r.combined cands).map make).Perm (r.nodeTel.keys.map g) := by
    intro β make g same
    refine (sorted.map make).trans ?_
    rw [listed, List.map_filterMap]
    apply keyed.filterMap_perm c localIP
    · intro ip known
      obtain ⟨cand, candidate⟩ := exists_averaged r source known
      simp [candidate, same ip cand candidate]
    · intro ip unknown
      simp [EWMARouter.averaged, AList.lookup_eq_none.mpr unknown]
  have total := each (fun cand => EWMARouter.rawWeight (r.combined cand))
    (fun ip => EWMARouter.rawWeight (r.nextScore source ip))
    (by intro ip cand candidate; simp [EWMARouter.nextScore, candidate])
  simp only [settings, total.sum_eq]
  apply each
  intro ip cand candidate
  simp [share, EWMARouter.nextScore, candidate, averaged_nodeIp candidate]

theorem ewma_sorted (r : EWMARouter K) (source : EndPoint) (c : Choices) (localIP : String) :
    (r.computing c localIP source).1.Pairwise fun p q => p.rawRTT ≤ q.rawRTT := by
  unfold EWMARouter.computing
  simp only [List.pairwise_map]
  exact Sort.exchangeSort_sorted _ _

end

variable [IsStrictOrderedRing K]

theorem rawWeight_antitone {a b : K} (pos : 0 < a) (le : a ≤ b) :
    EWMARouter.rawWeight b ≤ EWMARouter.rawWeight a := by
  simp only [EWMARouter.rawWeight, if_pos pos, if_pos (pos.trans_le le)]
  exact one_div_le_one_div_of_le pos le

/-- **Traffic shares.** Both routers give every node a share, the same for every order in
which the loops meet the nodes. P2C gives more to a node with less load; the moving
averages order the nodes by score and, if all scores are positive, give more to a node with
a smaller one. -/
theorem traffic_shares {nodes : NodeTel K} (keyed : KeyedByIP nodes) (nonempty : nodes.keys ≠ [])
    (localIP : String) :
    (∀ r : P2CRouter K, r.nodeTel = nodes →
      SplitsTraffic nodes (fun c => r.computing c localIP) ∧
      ∀ c a b telA telB, nodes.lookup a = some telA → nodes.lookup b = some telB →
        effectiveLoad telA ≤ effectiveLoad telB →
        ∀ p ∈ r.computing c localIP, ∀ q ∈ r.computing c localIP, p.hops = [a] → q.hops = [b] →
          q.rtt ≤ p.rtt) ∧
    ∀ r : EWMARouter K, r.nodeTel = nodes → ∀ source,
      SplitsTraffic nodes (fun c => (r.computing c localIP source).1) ∧
      ∀ c, let result := r.computing c localIP source
        result.1.Pairwise (fun p q => p.rawRTT ≤ q.rawRTT) ∧
        (∀ p ∈ result.1, ∀ ip, p.hops = [ip] → p.rawRTT = result.2.score ip) ∧
        ((∀ p ∈ result.1, 0 < p.rawRTT) → ∀ p ∈ result.1, ∀ q ∈ result.1,
          p.rawRTT ≤ q.rawRTT → q.rtt ≤ p.rtt) := by
  constructor
  · rintro r rfl
    have h := fun c => p2c_perm keyed nonempty c localIP
    have pos : ∀ ip, 0 < 1 / r.load ip := fun ip => one_div_pos.mpr (r.load_pos ip)
    refine ⟨splitsTraffic_of_split h pos nonempty, ?_⟩
    intro c a b telA telB foundA foundB le p hp q hq atA atB
    apply rtt_le_of_split (h c) pos hp hq atA atB
    rw [← P2CRouter.load_eq foundA, ← P2CRouter.load_eq foundB] at le
    exact one_div_le_one_div_of_le (r.load_pos a) le
  · rintro r rfl source
    have h := fun c => ewma_perm keyed source c localIP
    have pos : ∀ ip, 0 < EWMARouter.rawWeight (r.nextScore source ip) := fun ip => rawWeight_pos _
    refine ⟨splitsTraffic_of_split h pos nonempty, fun c => ⟨?_, ?_, ?_⟩⟩
    · exact ewma_sorted r source c localIP
    · intro p mem ip hops
      obtain ⟨known, -, raw⟩ := mem_of_split (h c) mem hops
      have met : ip ∈ collectNodes c localIP r.nodeTel :=
        (keyed.collectNodes_perm nonempty c localIP).mem_iff.mpr (AList.mem_keys.mp known)
      exact raw.trans ((keyed.averaged source c localIP).score met known)
    · intro positive p hp q hq le
      obtain ⟨a, atA⟩ := exists_hops_of_split (h c) hp
      obtain ⟨b, atB⟩ := exists_hops_of_split (h c) hq
      have rawA := (mem_of_split (h c) hp atA).2.2
      have rawB := (mem_of_split (h c) hq atB).2.2
      apply rtt_le_of_split (h c) pos hp hq atA atB
      exact rawWeight_antitone (rawA ▸ positive p hp) (rawA ▸ rawB ▸ le)

/-- A router that has seen one of two nodes before. -/
def seenOne : EWMARouter ℚ :=
  { newEWMARouter twoNodes twoDelays with cpuEWMA := (∅ : Dict String ℚ).insert "10.0.0.1" 90 }

theorem traffic_shares_two :
    SplitsTraffic twoNodes
      (fun c => (⟨twoNodes, twoDelays⟩ : P2CRouter ℚ).computing c "10.0.0.9") ∧
    SplitsTraffic twoNodes (fun c => (seenOne.computing c "10.0.0.9" seoul).1) := by
  have shares := traffic_shares (show KeyedByIP twoNodes by decide +kernel)
    (show twoNodes.keys ≠ [] by decide +kernel) "10.0.0.9"
  exact ⟨(shares.1 _ rfl).1, (shares.2 _ rfl seoul).1⟩

end SkyAccel.LastMile
