import SkyAccel.LastMile.Shares

/-!
# The averages of one router

Any sequence of `updateEWMACPU`, `updateEWMALatency` and `SetAlpha` on one EWMA router.
The average of a node stays between the smallest and the largest of its observations
(`averages_between`). The first loop of `Computing` is such a sequence (`collected_updates`).
-/

namespace SkyAccel.LastMile

open Averages

variable {K : Type}

/-- A call that changes a router. -/
inductive Update (K : Type)
  | cpu (nodeIP : String) (cpuUsage : K)
  | latency (nodeIP : String) (latency : K)
  | setAlpha (alpha lambda : K)

namespace Update

/-- The node that the call is for. -/
def nodeIP : Update K → Option String
  | .cpu ip _ => some ip
  | .latency ip _ => some ip
  | .setAlpha _ _ => none

/-- The CPU usage that the call reports of a node. -/
def seenCPU (ip : String) : Update K → Option K
  | .cpu nodeIP x => if nodeIP = ip then some x else none
  | _ => none

/-- The latency that the call reports of a node. -/
def seenLatency (ip : String) : Update K → Option K
  | .latency nodeIP x => if nodeIP = ip then some x else none
  | _ => none

variable [Field K] [LinearOrder K]

/-- The smoothing factor that the call sets is between 0 and 1. -/
def Smooths : Update K → Prop
  | .setAlpha alpha _ => 0 ≤ alpha ∧ alpha ≤ 1
  | _ => True

end Update

def cpuSeen (ops : List (Update K)) (ip : String) : List K := ops.filterMap (Update.seenCPU ip)

def latencySeen (ops : List (Update K)) (ip : String) : List K :=
  ops.filterMap (Update.seenLatency ip)

namespace EWMARouter
variable [Field K] [LinearOrder K]

def update (r : EWMARouter K) : Update K → EWMARouter K
  | .cpu nodeIP cpuUsage => r.updateEWMACPU nodeIP cpuUsage
  | .latency nodeIP latency => r.updateEWMALatency nodeIP latency
  | .setAlpha alpha lambda => r.setAlpha alpha lambda

/-- What a router knows of a node: its two averages. -/
def state (r : EWMARouter K) (ip : String) : Option K × Option K :=
  (r.cpuEWMA.lookup ip, r.latEWMA.lookup ip)

end EWMARouter

section
variable [LinearOrder K]

/-- A node has an average if something was observed of it, and then one between the
smallest and the largest observation. -/
def Tracks (averages : Dict String K) (seen : String → List K) : Prop :=
  ∀ ip, (averages.lookup ip = none ↔ seen ip = []) ∧
    ∀ v ∈ averages.lookup ip, Between (seen ip) v

end

/-! ## One update -/

section
variable [Field K] [LinearOrder K] [IsStrictOrderedRing K]

theorem Tracks.update {averages : Dict String K} {seen seen' : String → List K} {alpha : K}
    (h : Tracks averages seen) (nonneg : 0 ≤ alpha) (le : alpha ≤ 1) {nodeIP : String} {x : K}
    (own : seen' nodeIP = seen nodeIP ++ [x]) (others : ∀ ip, ip ≠ nodeIP → seen' ip = seen ip) :
    Tracks (updateEWMA alpha averages nodeIP x) seen' := by
  intro ip
  rw [lookup_updateEWMA]
  by_cases same : ip = nodeIP
  · subst same
    rw [if_pos rfl, own]
    refine ⟨by simp, fun v new => ?_⟩
    obtain rfl := Option.some.inj new
    exact smooth_between nonneg le (h ip).2 x
  · rw [if_neg same, others ip same]
    exact h ip

end

/-! ## Every sequence -/

section
variable [Field K] [LinearOrder K]

/-- The invariant of a router after the given calls. -/
structure Smoothed (ops : List (Update K)) (r : EWMARouter K) : Prop where
  cpuAlpha : 0 ≤ r.cpuAlpha ∧ r.cpuAlpha ≤ 1
  latAlpha : 0 ≤ r.latAlpha ∧ r.latAlpha ≤ 1
  cpu : Tracks r.cpuEWMA (cpuSeen ops)
  lat : Tracks r.latEWMA (latencySeen ops)

omit [LinearOrder K] in
/-- A call changes nothing of the nodes that it is not for. -/
theorem EWMARouter.state_update (r : EWMARouter K) {op : Update K} {ip : String}
    (other : op.nodeIP ≠ some ip) : (r.update op).state ip = r.state ip := by
  cases op with
  | cpu nodeIP cpuUsage =>
    have ne : ip ≠ nodeIP := fun same => other (congrArg some same.symm)
    simp only [state, update, updateEWMACPU, lookup_updateEWMA, if_neg ne]
  | latency nodeIP latency =>
    have ne : ip ≠ nodeIP := fun same => other (congrArg some same.symm)
    simp only [state, update, updateEWMALatency, lookup_updateEWMA, if_neg ne]
  | setAlpha alpha lambda => rfl

variable [IsStrictOrderedRing K]

theorem Smoothed.new (nodeTel : NodeTel K) (edgeAgg : EdgeAgg K) :
    Smoothed [] (newEWMARouter nodeTel edgeAgg) where
  cpuAlpha := by constructor <;> norm_num [newEWMARouter]
  latAlpha := by constructor <;> norm_num [newEWMARouter]
  cpu _ := ⟨iff_of_true rfl rfl, nofun⟩
  lat _ := ⟨iff_of_true rfl rfl, nofun⟩

theorem Smoothed.update {ops : List (Update K)} {r : EWMARouter K} (h : Smoothed ops r)
    {op : Update K} (smooths : op.Smooths) : Smoothed (ops ++ [op]) (r.update op) := by
  have cpu : ∀ ip, op.seenCPU ip = none → cpuSeen (ops ++ [op]) ip = cpuSeen ops ip := by
    intro ip none
    simp [cpuSeen, none]
  have latency : ∀ ip, op.seenLatency ip = none →
      latencySeen (ops ++ [op]) ip = latencySeen ops ip := by
    intro ip none
    simp [latencySeen, none]
  cases op with
  | cpu nodeIP cpuUsage =>
    refine ⟨h.cpuAlpha, h.latAlpha, ?_, ?_⟩
    · apply h.cpu.update h.cpuAlpha.1 h.cpuAlpha.2
      · simp [cpuSeen, Update.seenCPU]
      · exact fun ip other => cpu ip (if_neg (Ne.symm other))
    · rw [funext fun ip => latency ip rfl]
      exact h.lat
  | latency nodeIP x =>
    refine ⟨h.cpuAlpha, h.latAlpha, ?_, ?_⟩
    · rw [funext fun ip => cpu ip rfl]
      exact h.cpu
    · apply h.lat.update h.latAlpha.1 h.latAlpha.2
      · simp [latencySeen, Update.seenLatency]
      · exact fun ip other => latency ip (if_neg (Ne.symm other))
  | setAlpha alpha lambda =>
    refine ⟨smooths, smooths, ?_, ?_⟩
    · rw [funext fun ip => cpu ip rfl]
      exact h.cpu
    · rw [funext fun ip => latency ip rfl]
      exact h.lat

theorem Smoothed.run (nodeTel : NodeTel K) (edgeAgg : EdgeAgg K) (ops : List (Update K))
    (smooths : ∀ op ∈ ops, op.Smooths) :
    Smoothed ops (ops.foldl EWMARouter.update (newEWMARouter nodeTel edgeAgg)) := by
  induction ops using List.reverseRecOn with
  | nil => exact .new nodeTel edgeAgg
  | append_singleton ops op ih =>
    rw [List.foldl_append]
    apply (ih fun op' mem => smooths op' (List.mem_append_left _ mem)).update
    exact smooths op (by simp)

/-- **An average stays within its observations**, for every sequence of calls on a router
that sets no smoothing factor outside 0 to 1. A call for one node changes nothing of the
others. -/
theorem averages_between (nodeTel : NodeTel K) (edgeAgg : EdgeAgg K) (ops : List (Update K))
    (smooths : ∀ op ∈ ops, op.Smooths) :
    Tracks (ops.foldl EWMARouter.update (newEWMARouter nodeTel edgeAgg)).cpuEWMA (cpuSeen ops) ∧
      Tracks (ops.foldl EWMARouter.update (newEWMARouter nodeTel edgeAgg)).latEWMA
        (latencySeen ops) ∧
      ∀ (r : EWMARouter K) (op : Update K) ip, op.nodeIP ≠ some ip →
        (r.update op).state ip = r.state ip := by
  have sound := Smoothed.run nodeTel edgeAgg ops smooths
  exact ⟨sound.cpu, sound.lat, fun r _ _ other => r.state_update other⟩

end

/-- Three observations of one node with one of another between them; the factor changes
before each of the last two. -/
def threeObservations : List (Update ℚ) :=
  [.cpu "a" 10, .setAlpha 1 0, .cpu "a" 90, .latency "b" 50, .setAlpha (1 / 2) 1, .cpu "a" 30]

theorem averages_between_three :
    (threeObservations.foldl EWMARouter.update (newEWMARouter ∅ ∅)).state "a" = (some 60, none) ∧
      Between (cpuSeen threeObservations "a") 60 := by
  have value : (threeObservations.foldl EWMARouter.update (newEWMARouter ∅ ∅)).state "a" =
      (some 60, none) := by decide +kernel
  have smooths : ∀ op ∈ threeObservations, op.Smooths := by
    simp only [threeObservations, List.forall_mem_cons, Update.Smooths]
    norm_num
  exact ⟨value, ((averages_between ∅ ∅ threeObservations smooths).1 "a").2 60 (Prod.mk.inj value).1⟩

/-! ## Computing -/

section
variable [Field K] [LinearOrder K]

/-- One turn of the first loop makes two of these calls, or none. -/
theorem collect_updates (source : EndPoint) (st : EWMARouter K × List (Candidate K))
    (nodeIp : String) : ∃ ops : List (Update K), (∀ op ∈ ops, op.nodeIP = some nodeIp) ∧
      (EWMARouter.collect source st nodeIp).1 = ops.foldl EWMARouter.update st.1 := by
  unfold EWMARouter.collect
  split
  · exact ⟨[], nofun, rfl⟩
  · rename_i tel found
    refine ⟨[.cpu nodeIp (EWMARouter.observedCPU tel), .latency nodeIp _], ?_, rfl⟩
    simp [Update.nodeIP]

/-- The first loop of `Computing` is a sequence of calls for the nodes it goes through. -/
theorem collected_updates (c : Choices) (localIP : String) (r : EWMARouter K) (source : EndPoint) :
    ∃ ops : List (Update K), (∀ op ∈ ops, ∃ ip, op.nodeIP = some ip) ∧
      (r.collected c localIP source).1 = ops.foldl EWMARouter.update r := by
  refine List.foldlRecOn (motive := fun st : EWMARouter K × List (Candidate K) =>
    ∃ ops : List (Update K), (∀ op ∈ ops, ∃ ip, op.nodeIP = some ip) ∧
      st.1 = ops.foldl EWMARouter.update r) _ _ ⟨[], nofun, rfl⟩ ?_
  rintro st ⟨ops, nodes, before⟩ ip -
  obtain ⟨more, own, turn⟩ := collect_updates source st ip
  refine ⟨ops ++ more, fun op mem => ?_, by rw [turn, before, List.foldl_append]⟩
  obtain mem | mem := List.mem_append.mp mem
  · exact nodes op mem
  · exact ⟨ip, own op mem⟩

end

end SkyAccel.LastMile
