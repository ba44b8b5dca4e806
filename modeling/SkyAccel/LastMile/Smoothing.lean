import SkyAccel.Lib.Averages
import SkyAccel.LastMile.Routers

/-!
# Moving averages across requests

The averages of the EWMA router live in the router, and `LastRouting` makes a new router
for every request. So the terms that score a node are its observations at that request
(`scored_eq`), which are the averages over its requests so far only if each observation
repeats the one before it or is not smoothed at all (`remembers_iff`).
-/

namespace SkyAccel.LastMile

open Averages

variable {K : Type} [Field K] [LinearOrder K]

/-- A call of `LastRouting` with the algorithm `ewma_based`, and the state it finds. -/
structure Call (K : Type) where
  order : Choices
  localIP : String
  nodes : NodeTel K
  edgeAgg : EdgeAgg K
  source : EndPoint
  result : Option IPInfo
  cpuWeight : K
  latencyWeight : K

namespace Call

/-- The smoothing factor of a call. -/
def alpha (call : Call K) : K :=
  if 0 ≤ call.cpuWeight ∧ 0 ≤ call.latencyWeight then call.cpuWeight
  else (newEWMARouter call.nodes call.edgeAgg).cpuAlpha

/-- The weight of the CPU in a score. -/
def lambda (call : Call K) : K :=
  if 0 ≤ call.cpuWeight ∧ 0 ≤ call.latencyWeight then call.latencyWeight
  else (newEWMARouter call.nodes call.edgeAgg).lambda

/-- The candidates with the terms that score them. -/
def scored (call : Call K) : List (Candidate K) :=
  match call.result with
  | none => []
  | some result =>
    match initLastInterface call.nodes call.edgeAgg .ewmaBased call.cpuWeight call.latencyWeight with
    | .ewma r => (r.collected call.order call.localIP (locate call.source result)).2
    | _ => []

/-- The CPU usage and the latency of a node that are seen at the call, if it is scored. -/
def observed (call : Call K) (nodeIp : String) : Option (K × K) :=
  match call.result with
  | none => none
  | some result =>
    if nodeIp ∈ collectNodes call.order call.localIP call.nodes then
      (call.nodes.lookup nodeIp).map fun tel => (EWMARouter.observedCPU tel,
        (newEWMARouter call.nodes call.edgeAgg).observedLatency (locate call.source result) nodeIp)
    else none

end Call

/-! ## The first loop of a new router -/

/-- The averages of a router are observations of this call. -/
structure Fresh (nodes : NodeTel K) (edgeAgg : EdgeAgg K) (source : EndPoint) (r : EWMARouter K) :
    Prop where
  nodeTel : r.nodeTel = nodes
  agg : r.edgeAgg = edgeAgg
  cpu : ∀ ip tel, nodes.lookup ip = some tel → ∀ v ∈ r.cpuEWMA.lookup ip,
    v = EWMARouter.observedCPU tel
  lat : ∀ ip, ∀ v ∈ r.latEWMA.lookup ip,
    v = (newEWMARouter nodes edgeAgg).observedLatency source ip

/-- A candidate whose terms are its observations. -/
def observedCandidate (nodes : NodeTel K) (edgeAgg : EdgeAgg K) (source : EndPoint) (ip : String) :
    Option (Candidate K) :=
  (nodes.lookup ip).map fun tel =>
    let cpu := EWMARouter.observedCPU tel
    let lat := (newEWMARouter nodes edgeAgg).observedLatency source ip
    ⟨ip, cpu, lat, cpu, lat⟩

omit [LinearOrder K] in
/-- A repeated observation does not move an average. -/
theorem updateEWMA_same {alpha x : K} {averages : Dict String K} {nodeIP : String}
    (same : ∀ v ∈ averages.lookup nodeIP, v = x) :
    updateEWMA alpha averages nodeIP x = averages.insert nodeIP x := by
  unfold updateEWMA
  split
  · rfl
  · rename_i current found
    obtain rfl := same current found
    ring_nf

section
variable {nodes : NodeTel K} {edgeAgg : EdgeAgg K} {source : EndPoint} {r : EWMARouter K}

theorem Fresh.latency (h : Fresh nodes edgeAgg source r) (ip : String) :
    r.observedLatency source ip = (newEWMARouter nodes edgeAgg).observedLatency source ip := by
  simp only [EWMARouter.observedLatency, h.nodeTel, h.agg]
  rfl

theorem Fresh.updateCPU (h : Fresh nodes edgeAgg source r) {ip : String} {tel : NodeTelemetry K}
    (found : nodes.lookup ip = some tel) :
    Fresh nodes edgeAgg source (r.updateEWMACPU ip (EWMARouter.observedCPU tel)) ∧
      (r.updateEWMACPU ip (EWMARouter.observedCPU tel)).getCPUEWMA ip =
        EWMARouter.observedCPU tel := by
  have update : (r.updateEWMACPU ip (EWMARouter.observedCPU tel)).cpuEWMA =
      r.cpuEWMA.insert ip (EWMARouter.observedCPU tel) := updateEWMA_same (h.cpu ip tel found)
  refine ⟨⟨h.nodeTel, h.agg, fun ip' tel' found' v mem => ?_, h.lat⟩, ?_⟩
  · rw [update, Dict.lookup_insert] at mem
    split at mem
    · rename_i same
      subst same
      obtain rfl := Option.some.inj (found.symm.trans found')
      exact (Option.some.inj mem).symm
    · exact h.cpu ip' tel' found' v mem
  · rw [EWMARouter.getCPUEWMA, update, AList.lookup_insert]
    rfl

theorem Fresh.updateLatency (h : Fresh nodes edgeAgg source r) (ip : String) :
    let latency := (newEWMARouter nodes edgeAgg).observedLatency source ip
    Fresh nodes edgeAgg source (r.updateEWMALatency ip latency) ∧
      (r.updateEWMALatency ip latency).getLatEWMA ip = latency := by
  intro latency
  have update : (r.updateEWMALatency ip latency).latEWMA = r.latEWMA.insert ip latency :=
    updateEWMA_same (h.lat ip)
  refine ⟨⟨h.nodeTel, h.agg, h.cpu, fun ip' v mem => ?_⟩, ?_⟩
  · rw [update, Dict.lookup_insert] at mem
    split at mem
    · rename_i same
      subst same
      exact (Option.some.inj mem).symm
    · exact h.lat ip' v mem
  · rw [EWMARouter.getLatEWMA, update, AList.lookup_insert]
    rfl

/-- One turn: the terms of a candidate are its observations. -/
theorem Fresh.collect (h : Fresh nodes edgeAgg source r) (cands : List (Candidate K)) (ip : String) :
    Fresh nodes edgeAgg source (EWMARouter.collect source (r, cands) ip).1 ∧
      (EWMARouter.collect source (r, cands) ip).2 =
        cands ++ (observedCandidate nodes edgeAgg source ip).toList := by
  unfold EWMARouter.collect observedCandidate
  simp only [h.nodeTel]
  cases found : nodes.lookup ip with
  | none => exact ⟨h, (List.append_nil _).symm⟩
  | some tel =>
    obtain ⟨afterCPU, cpu⟩ := h.updateCPU found
    obtain ⟨afterBoth, lat⟩ := afterCPU.updateLatency ip
    -- the second update leaves the averages of the CPU alone
    have both : ((r.updateEWMACPU ip (EWMARouter.observedCPU tel)).updateEWMALatency ip
        ((newEWMARouter nodes edgeAgg).observedLatency source ip)).getCPUEWMA ip =
          EWMARouter.observedCPU tel := cpu
    simp only [afterCPU.latency ip, lat, both, Option.map_some, Option.toList_some, and_true]
    exact afterBoth

theorem Fresh.collect_all (h : Fresh nodes edgeAgg source r) (cands : List (Candidate K))
    (ips : List String) :
    (ips.foldl (EWMARouter.collect source) (r, cands)).2 =
      cands ++ ips.filterMap (observedCandidate nodes edgeAgg source) := by
  induction ips generalizing r cands with
  | nil => exact (List.append_nil _).symm
  | cons ip ips ih =>
    obtain ⟨fresh, listed⟩ := h.collect cands ip
    have rest := ih fresh (EWMARouter.collect source (r, cands) ip).2
    rw [List.foldl_cons, rest, listed, List.append_assoc]
    cases found : observedCandidate nodes edgeAgg source ip with
    | none => rw [List.filterMap_cons_none found]; rfl
    | some cand => rw [List.filterMap_cons_some found]; rfl

end

/-- A new router, with the settings of the call. -/
theorem Call.router_eq (call : Call K) :
    initLastInterface call.nodes call.edgeAgg .ewmaBased call.cpuWeight call.latencyWeight =
      .ewma ⟨call.nodes, call.edgeAgg, ∅, ∅, call.alpha, call.alpha, call.lambda⟩ := by
  unfold initLastInterface alpha lambda
  dsimp only
  split
  · rfl
  · rfl

/-- The candidates of a call are the nodes with telemetry, scored by what is observed. -/
theorem Call.scored_eq {call : Call K} {result : IPInfo} (located : call.result = some result) :
    call.scored = (collectNodes call.order call.localIP call.nodes).filterMap
      (observedCandidate call.nodes call.edgeAgg (locate call.source result)) := by
  simp only [scored, located, call.router_eq]
  have fresh : Fresh call.nodes call.edgeAgg (locate call.source result)
      ⟨call.nodes, call.edgeAgg, ∅, ∅, call.alpha, call.alpha, call.lambda⟩ :=
    ⟨rfl, rfl, nofun, nofun⟩
  exact fresh.collect_all [] _

theorem collected_lambda (c : Choices) (localIP : String) (r : EWMARouter K) (source : EndPoint) :
    (r.collected c localIP source).1.lambda = r.lambda := by
  refine List.foldlRecOn (motive := fun st : EWMARouter K × List (Candidate K) =>
    st.1.lambda = r.lambda) _ _ rfl ?_
  intro st kept ip _
  unfold EWMARouter.collect
  split
  · exact kept
  · exact kept

/-- The paths that a call returns are scored by the terms of its candidates. -/
theorem Call.lastRouting_scores (call : Call K) (exp : K → K) :
    ((lastRouting exp call.order call.localIP call.nodes call.edgeAgg call.source call.result
        .ewmaBased call.cpuWeight call.latencyWeight).map fun p => (p.hops, p.rawRTT)).Perm
      (call.scored.map fun cand => ([cand.nodeIp],
        call.lambda * cand.cpuEwma + (1 - call.lambda) * cand.latEwma)) := by
  cases located : call.result with
  | none =>
    simp only [lastRouting, scored, located]
    exact .nil
  | some result =>
    have settings := collected_lambda call.order call.localIP
      ⟨call.nodes, call.edgeAgg, ∅, ∅, call.alpha, call.alpha, call.lambda⟩
      (locate call.source result)
    simp only [lastRouting, scored, located, call.router_eq, LastRouter.computing,
      EWMARouter.computing, List.map_map]
    refine ((Sort.exchangeSort_perm _ _).map _).trans (.of_eq ?_)
    simp only [Function.comp_def, EWMARouter.combined, settings, div_one]

/-- A node is a candidate exactly if it is observed, and its terms are what is observed. -/
theorem Call.observed_iff {call : Call K} {nodeIp : String} {x : K × K} :
    call.observed nodeIp = some x ↔
      ∃ cand ∈ call.scored, cand.nodeIp = nodeIp ∧ (cand.cpuEwma, cand.latEwma) = x := by
  cases located : call.result with
  | none =>
    simp only [observed, scored, located]
    exact iff_of_false nofun nofun
  | some result =>
    simp only [observed, located, scored_eq located, List.mem_filterMap, observedCandidate]
    constructor
    · intro seen
      split at seen
      · rename_i listed
        obtain ⟨tel, found, rfl⟩ := Option.map_eq_some_iff.mp seen
        exact ⟨_, ⟨nodeIp, listed, Option.map_eq_some_iff.mpr ⟨tel, found, rfl⟩⟩, rfl, rfl⟩
      · cases seen
    · rintro ⟨cand, ⟨ip, listed, candidate⟩, rfl, rfl⟩
      obtain ⟨tel, found, rfl⟩ := Option.map_eq_some_iff.mp candidate
      simp only [if_pos listed, found, Option.map_some]

/-! ## Histories -/

/-- What is observed of a node's CPU over a sequence of calls, with the smoothing factors. -/
def cpuHistory (calls : List (Call K)) (nodeIp : String) : List (K × K) :=
  calls.filterMap fun call => (call.observed nodeIp).map fun x => (call.alpha, x.1)

def latencyHistory (calls : List (Call K)) (nodeIp : String) : List (K × K) :=
  calls.filterMap fun call => (call.observed nodeIp).map fun x => (call.alpha, x.2)

/-- At every call the terms of a candidate are its averages over the calls so far. -/
def Remembers (calls : List (Call K)) : Prop :=
  ∀ before call, before ++ [call] <+: calls → ∀ cand ∈ call.scored,
    ewma (cpuHistory (before ++ [call]) cand.nodeIp) = some cand.cpuEwma ∧
      ewma (latencyHistory (before ++ [call]) cand.nodeIp) = some cand.latEwma

/-- **The averages go back over the calls** exactly if, at every call after its first one,
the CPU usage and the latency observed of a node are what they were at its call before, or
the smoothing factor is 1. -/
theorem remembers_iff (calls : List (Call K)) :
    Remembers calls ↔
      ∀ nodeIp, Steady (cpuHistory calls nodeIp) ∧ Steady (latencyHistory calls nodeIp) := by
  have history : ∀ (term : K × K → K) (nodeIp : String),
      Steady (calls.filterMap fun call =>
        (call.observed nodeIp).map fun x => (call.alpha, term x)) ↔
      ∀ before call, before ++ [call] <+: calls → ∀ cand ∈ call.scored, cand.nodeIp = nodeIp →
        ewma ((before ++ [call]).filterMap fun call =>
          (call.observed nodeIp).map fun x => (call.alpha, term x)) =
            some (term (cand.cpuEwma, cand.latEwma)) := by
    intro term nodeIp
    rw [← ewma_eq_last_iff, forall_prefix_filterMap_iff _ fun l x => ewma l = some x.2]
    refine forall_congr' fun before => forall_congr' fun call => imp_congr_right fun _ => ?_
    constructor
    · intro all cand mem same
      apply all (call.alpha, term (cand.cpuEwma, cand.latEwma))
      exact Option.map_eq_some_iff.mpr ⟨_, Call.observed_iff.mpr ⟨cand, mem, same, rfl⟩, rfl⟩
    · intro all x yields
      obtain ⟨y, seen, rfl⟩ := Option.map_eq_some_iff.mp yields
      obtain ⟨cand, mem, same, rfl⟩ := Call.observed_iff.mp seen
      exact all cand mem same
  constructor
  · intro remembers nodeIp
    constructor
    · apply (history Prod.fst nodeIp).mpr
      rintro before call part cand mem rfl
      exact (remembers before call part cand mem).1
    · apply (history Prod.snd nodeIp).mpr
      rintro before call part cand mem rfl
      exact (remembers before call part cand mem).2
  · intro steady before call part cand mem
    obtain ⟨cpu, latency⟩ := steady cand.nodeIp
    exact ⟨(history Prod.fst cand.nodeIp).mp cpu before call part cand mem rfl,
      (history Prod.snd cand.nodeIp).mp latency before call part cand mem rfl⟩

/-! ## Two calls -/

/-- One node at the given CPU usage, and a user whose latency is not known. -/
def oneNode (usage : ℚ) : Call ℚ where
  order := fun _ _ => 1
  localIP := "10.0.0.9"
  nodes := (∅ : NodeTel ℚ).insert "10.0.0.1" ⟨"10.0.0.1", "Asia", ⟨usage, 0, 2⟩⟩
  edgeAgg := ∅
  source := ⟨"1.2.3.4", "", "", ""⟩
  result := some ⟨"KR", "Seoul", "Asia"⟩
  cpuWeight := 1 / 2
  latencyWeight := 1 / 2

/-- The usage rises from 10 to 90. The second call scores the node by 90, while its average
is 50. -/
theorem forgets_first_call :
    (oneNode 90).scored.map (fun cand => (cand.nodeIp, cand.cpuEwma)) = [("10.0.0.1", 90)] ∧
      ewma (cpuHistory [oneNode 10, oneNode 90] "10.0.0.1") = some 50 ∧
      ¬ Remembers [oneNode 10, oneNode 90] := by
  have term : (oneNode 90).scored.map (fun cand => (cand.nodeIp, cand.cpuEwma)) =
      [("10.0.0.1", 90)] := by decide +kernel
  have average : ewma (cpuHistory [oneNode 10, oneNode 90] "10.0.0.1") = some 50 := by
    decide +kernel
  refine ⟨term, average, fun remembers => ?_⟩
  obtain ⟨cand, mem, same⟩ := List.mem_map.mp (term ▸ List.mem_singleton_self _)
  obtain ⟨ip, cpu⟩ := Prod.mk.inj same
  have fold := (remembers [oneNode 10] (oneNode 90) List.prefix_rfl cand mem).1
  rw [ip, cpu, List.singleton_append, average] at fold
  exact absurd (Option.some.inj fold) (by decide +kernel)

end SkyAccel.LastMile
