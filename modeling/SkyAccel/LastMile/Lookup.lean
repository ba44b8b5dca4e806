import SkyAccel.Lib.Net
import SkyAccel.Control.GlobalStats
import SkyAccel.LastMile.Routers

/-!
# From the reports to the routers

The reports of the nodes are added up under keys made of a city and an address
(`rebuildAggregate`), copied (`getAggMap`), and looked up by the routers under keys that they
make in the same way. All four loops go over maps. They give what `Control.aggregate` gives,
whatever order they meet the entries in (`rebuildAggregate_lookup`), and a router finds the
report of a node exactly if no other report has the same key (`report_found_iff`).
-/

namespace SkyAccel.Control

/-! ## The loops -/

/-- One turn of the inner loop. -/
def addUp (newAgg : Dict String LastCongestion) (key : String) (val : LastCongestion) :
    Dict String LastCongestion :=
  let s := (newAgg.lookup key).getD ⟨0, 0, 0⟩
  newAgg.insert key { s with
    count := s.count + val.count
    sumRT := s.sumRT + val.avgRT * val.count }

/-- One turn of the outer loop; the entries of the report are met in the order of draw `n`. -/
def addNode (c : Choices) (n : Nat) (newAgg : Dict String LastCongestion) (node : LastTelemetry) :
    Dict String LastCongestion :=
  (shuffle c n node.lastsCongestion).foldl
    (fun newAgg entry => addUp newAgg (entry.1 ++ "-" ++ node.ip) entry.2) newAgg

def GlobalStats.rebuildAggregate (c : Choices) (g : GlobalStats) : Dict String LastCongestion :=
  let nodeList := shuffle c 0 g.nodeLast.values
  let newAgg := nodeList.zipIdx.foldl (fun newAgg node => addNode c (node.2 + 2) newAgg node.1) ∅
  (shuffle c 1 newAgg.entries).foldl (fun newAgg s => newAgg.insert s.1 (average s.2)) newAgg

/-- `GetAggMap`, with the fields that the routers read. -/
def getAggMap (c : Choices) (edgeAgg : Dict String LastCongestion) : LastMile.EdgeAgg ℚ :=
  (shuffle c 0 edgeAgg.entries).foldl (fun result v => result.insert v.1 ⟨v.2.count, v.2.avgRT⟩) ∅

/-- The entries as the loops meet them. -/
def met (c : Choices) (nodes : List (LastTelemetry × Nat)) : List (String × LastCongestion) :=
  nodes.flatMap fun node =>
    (shuffle c (node.2 + 2) node.1.lastsCongestion).map fun entry =>
      (entry.1 ++ "-" ++ node.1.ip, entry.2)

theorem met_perm (c : Choices) (g : GlobalStats) :
    (met c (shuffle c 0 g.nodeLast.values).zipIdx).Perm (entries g.nodeLast.values) := by
  have inner : ∀ nodes : List (LastTelemetry × Nat),
      (met c nodes).Perm (entries (nodes.map Prod.fst)) := by
    intro nodes
    rw [entries, List.flatMap_map]
    exact List.Perm.flatMap_left nodes fun node _ => (shuffle_perm c _ _).map _
  have outer := inner (shuffle c 0 g.nodeLast.values).zipIdx
  rw [List.zipIdx_map_fst] at outer
  exact outer.trans ((shuffle_perm c 0 _).flatMap_right _)

theorem foldl_addUp_lookup (es : List (String × LastCongestion))
    (newAgg : Dict String LastCongestion) (key : String) :
    (es.foldl (fun newAgg entry => addUp newAgg entry.1 entry.2) newAgg).lookup key =
      es.foldl tally (fun key => newAgg.lookup key) key := by
  induction es generalizing newAgg with
  | nil => rfl
  | cons entry es ih =>
    have turn : (fun key => (addUp newAgg entry.1 entry.2).lookup key) =
        tally (fun key => newAgg.lookup key) entry := by
      funext key
      simp only [addUp, tally, Dict.lookup_insert, Function.update_apply]
    rw [List.foldl_cons, List.foldl_cons, ih, turn]

/-- A loop that puts something under each key of a map. -/
theorem foldl_entries_lookup {ν : Type} (c : Choices) (n : Nat) (m : Dict String LastCongestion)
    (start : Dict String ν) (val : LastCongestion → ν) (key : String) :
    ((shuffle c n m.entries).foldl (fun r v => r.insert v.1 (val v.2)) start).lookup key =
      ((m.lookup key).map val).or (start.lookup key) := by
  rw [Dict.lookup_foldl_insert Sigma.fst, Dict.lastOf_entries (shuffle_perm c n m.entries),
    Option.map_map]
  rfl

/-- The loops compute the aggregate of the reports stored, in any order. -/
theorem rebuildAggregate_lookup (c : Choices) (g : GlobalStats) (key : String) :
    (g.rebuildAggregate c).lookup key = g.aggregated key := by
  have loops : ∀ (nodes : List (LastTelemetry × Nat)) (newAgg : Dict String LastCongestion),
      nodes.foldl (fun newAgg node => addNode c (node.2 + 2) newAgg node.1) newAgg =
        (met c nodes).foldl (fun newAgg entry => addUp newAgg entry.1 entry.2) newAgg := by
    intro nodes newAgg
    simp only [met, List.foldl_flatMap, List.foldl_map]
    rfl
  rw [GlobalStats.aggregated, ← aggregate_perm (met_perm c g), GlobalStats.rebuildAggregate]
  simp only [loops, foldl_entries_lookup, foldl_addUp_lookup, aggregate, AList.lookup_empty]
  generalize List.foldl tally (fun _ => none) (met c (shuffle c 0 g.nodeLast.values).zipIdx) key = s
  cases s with
  | none => rfl
  | some s => rfl

theorem getAggMap_lookup (c : Choices) (edgeAgg : Dict String LastCongestion) (key : String) :
    (getAggMap c edgeAgg).lookup key =
      (edgeAgg.lookup key).map fun v => ⟨v.count, v.avgRT⟩ := by
  have copied := foldl_entries_lookup c 0 edgeAgg ∅
    (fun v => (⟨v.count, v.avgRT⟩ : LastMile.LastCongestion ℚ)) key
  rw [AList.lookup_empty, Option.or_none] at copied
  exact copied

/-! ## Keys -/

/-- The node has reported the statistics for the city. -/
def Reported (g : GlobalStats) (ip city : String) (val : LastCongestion) : Prop :=
  ∃ node ∈ g.nodeLast.values, node.ip = ip ∧ (city, val) ∈ node.lastsCongestion

/-- Stored reports of distinct nodes, whose addresses have no dash. -/
structure Stored (g : GlobalStats) : Prop where
  distinct : (g.nodeLast.values.map LastTelemetry.ip).Nodup
  plain : ∀ node ∈ g.nodeLast.values, '-' ∉ node.ip.toList
  cities : ∀ node ∈ g.nodeLast.values, (node.lastsCongestion.map Prod.fst).Nodup

theorem key_inj {city city' ip ip' : String} (plain : '-' ∉ ip.toList) (plain' : '-' ∉ ip'.toList)
    (same : city ++ "-" ++ ip = city' ++ "-" ++ ip') : city = city' ∧ ip = ip' := by
  have chars := congrArg String.toList same
  simp only [String.toList_append, List.append_assoc] at chars
  obtain ⟨left, right⟩ := Net.append_cons_inj (c := '-') plain plain' chars
  exact ⟨String.toList_inj.mp left, String.toList_inj.mp right⟩

theorem mem_entries {g : GlobalStats} {key : String} {val : LastCongestion} :
    (key, val) ∈ entries g.nodeLast.values ↔
      ∃ ip city, Reported g ip city val ∧ key = city ++ "-" ++ ip := by
  simp only [entries, List.mem_flatMap, List.mem_map, Prod.mk.injEq, Reported]
  constructor
  · rintro ⟨node, mem, ⟨city, val⟩, listed, rfl, rfl⟩
    exact ⟨node.ip, city, ⟨node, mem, rfl, listed⟩, rfl⟩
  · rintro ⟨ip, city, ⟨node, mem, rfl, listed⟩, rfl⟩
    exact ⟨node, mem, (city, val), listed, rfl, rfl⟩

theorem Stored.keys_nodup {g : GlobalStats} (stored : Stored g) :
    ((entries g.nodeLast.values).map Prod.fst).Nodup := by
  rw [entries, List.map_flatMap, List.nodup_flatMap]
  constructor
  · intro node mem
    have keys : ((node.lastsCongestion.map Prod.fst).map (· ++ "-" ++ node.ip)).Nodup := by
      apply (stored.cities node mem).map
      intro city city' same
      simpa [String.append_assoc] using same
    simpa [Function.comp_def] using keys
  · have apart := List.pairwise_map.mp stored.distinct
    refine apart.imp_of_mem fun {node node'} mem mem' other => ?_
    intro key listed listed'
    simp only [List.map_map, List.mem_map, Function.comp_def] at listed listed'
    obtain ⟨entry, -, rfl⟩ := listed
    obtain ⟨entry', -, same⟩ := listed'
    exact other (key_inj (stored.plain node' mem') (stored.plain node mem) same).2.symm

theorem tally_foldl_of_not_mem {es : List (String × LastCongestion)} {key : String}
    (absent : key ∉ es.map Prod.fst) (agg : AggMap) : es.foldl tally agg key = agg key := by
  induction es generalizing agg with
  | nil => rfl
  | cons entry es ih =>
    rw [List.map_cons, List.mem_cons, not_or] at absent
    rw [List.foldl_cons, ih absent.2]
    exact Function.update_of_ne absent.1 _ _

/-- An entry is aggregated alone if no other has its key. -/
theorem aggregate_of_mem {es : List (String × LastCongestion)} (distinct : (es.map Prod.fst).Nodup)
    {key : String} {val : LastCongestion} (mem : (key, val) ∈ es) :
    aggregate es key = some (average ⟨val.count, val.avgRT * val.count, 0⟩) := by
  obtain ⟨front, back, rfl⟩ := List.append_of_mem mem
  have order : (front ++ (key, val) :: back).Perm ((key, val) :: (front ++ back)) :=
    List.perm_middle
  have absent : key ∉ (front ++ back).map Prod.fst := by
    have nodup := (order.map Prod.fst).nodup_iff.mp distinct
    exact (List.nodup_cons.mp nodup).1
  rw [aggregate_perm order]
  simp only [aggregate, List.foldl_cons, tally_foldl_of_not_mem absent]
  simp [tally]

end SkyAccel.Control

namespace SkyAccel.LastMile

open Control (GlobalStats Reported Stored getAggMap average)

/-! ## The routers -/

section
variable {K : Type} [Field K] [LinearOrder K]

def EWMARouter.getNodeRT (r : EWMARouter K) (source : EndPoint) (nodeIP : String) :
    Option (LastCongestion K) := LastMile.getNodeRT r.nodeTel r.edgeAgg source nodeIP

def JointRouter.getNodeRT (r : JointRouter K) (source : EndPoint) (nodeIP : String) :
    Option (LastCongestion K) := LastMile.getNodeRT r.nodeTel r.edgeAgg source nodeIP

def LyapunovSolver.getNodeRT (l : LyapunovSolver K) (source : EndPoint) (nodeIP : String) :
    Option (LastCongestion K) := LastMile.getNodeRT l.nodeTel l.edgeAgg source nodeIP

/-- What the three routers find out about a node. -/
def answers (nodeTel : NodeTel K) (edgeAgg : EdgeAgg K) (source : EndPoint) (nodeIP : String) :
    List (Option (LastCongestion K)) :=
  [(newEWMARouter nodeTel edgeAgg).getNodeRT source nodeIP,
    (newJointRouter edgeAgg nodeTel).getNodeRT source nodeIP,
    (⟨edgeAgg, nodeTel⟩ : LyapunovSolver K).getNodeRT source nodeIP]

omit [LinearOrder K] in
theorem getNodeRT_known {nodeTel : NodeTel K} {ip : String} {tel : NodeTelemetry K}
    (known : nodeTel.lookup ip = some tel) (edgeAgg : EdgeAgg K) (source : EndPoint) :
    getNodeRT nodeTel edgeAgg source ip =
      some ((edgeAgg.lookup (source.city ++ "-" ++ ip)).getD ⟨1, 50⟩) := by
  simp only [getNodeRT, known]
  cases edgeAgg.lookup (source.city ++ "-" ++ ip) with
  | none => rfl
  | some congestion => rfl

end

/-- What a router is to find out: the statistics that the node has reported for the city, and
the default exactly if there are none. -/
structure Finds (g : GlobalStats) (edgeAgg : EdgeAgg ℚ) (city ip : String)
    (rt : Option (LastCongestion ℚ)) : Prop where
  reported : ∀ val, Reported g ip city val →
    ∃ s, rt = some s ∧ s.count = val.count ∧ (0 < val.count → s.avgRT = val.avgRT)
  unreported : edgeAgg.lookup (city ++ "-" ++ ip) = none ↔ ¬ ∃ val, Reported g ip city val
  default : (¬ ∃ val, Reported g ip city val) → rt = some ⟨1, 50⟩

/-- No other node has a report under the key of the node and the city. -/
def Alone (g : GlobalStats) (city ip : String) : Prop :=
  ∀ ip' city' val, Reported g ip' city' val → city' ++ "-" ++ ip' = city ++ "-" ++ ip → ip' = ip

section
variable {g : GlobalStats}

theorem alone_of_plain (stored : Stored g) (city : String) {ip : String}
    (plain : '-' ∉ ip.toList) : Alone g city ip := by
  rintro ip' city' val ⟨node, mem, rfl, -⟩ same
  exact (Control.key_inj (stored.plain node mem) plain same).2

theorem average_reported (val : Control.LastCongestion) :
    (average ⟨val.count, val.avgRT * val.count, 0⟩).count = val.count ∧
      (0 < val.count → (average ⟨val.count, val.avgRT * val.count, 0⟩).avgRT = val.avgRT) := by
  by_cases some : 0 < val.count
  · have nonzero : (val.count : ℚ) ≠ 0 := by exact_mod_cast some.ne'
    simp [average, some, nonzero]
  · simp [average, some]

/-- What the map that a router is given has for a report. -/
theorem lookup_of_report (stored : Stored g) (c c' : Choices) {ip city : String}
    {val : Control.LastCongestion} (report : Reported g ip city val) :
    ∃ s, (getAggMap c' (g.rebuildAggregate c)).lookup (city ++ "-" ++ ip) = some s ∧
      s.count = val.count ∧ (0 < val.count → s.avgRT = val.avgRT) := by
  have mem := Control.mem_entries.mpr ⟨ip, city, report, rfl⟩
  rw [Control.getAggMap_lookup, Control.rebuildAggregate_lookup, GlobalStats.aggregated,
    Control.aggregate_of_mem stored.keys_nodup mem]
  exact ⟨_, rfl, average_reported val⟩

theorem exists_report_of_lookup (c c' : Choices) {key : String}
    (found : (getAggMap c' (g.rebuildAggregate c)).lookup key ≠ none) :
    ∃ ip city val, Reported g ip city val ∧ key = city ++ "-" ++ ip := by
  by_contra nowhere
  have absent : key ∉ (Control.entries g.nodeLast.values).map Prod.fst := by
    intro mem
    obtain ⟨⟨key, val⟩, listed, rfl⟩ := List.mem_map.mp mem
    obtain ⟨ip, city, report, same⟩ := Control.mem_entries.mp listed
    exact nowhere ⟨ip, city, val, report, same⟩
  apply found
  rw [Control.getAggMap_lookup, Control.rebuildAggregate_lookup]
  simp only [GlobalStats.aggregated, Control.aggregate, Control.tally_foldl_of_not_mem absent,
    Option.map_none]

/-- The key is in the map exactly if the node has reported for the city. -/
theorem unreported_of_alone (stored : Stored g) (c c' : Choices) {ip city : String}
    (alone : Alone g city ip) :
    (getAggMap c' (g.rebuildAggregate c)).lookup (city ++ "-" ++ ip) = none ↔
      ¬ ∃ val, Reported g ip city val := by
  constructor
  · rintro none ⟨val, report⟩
    obtain ⟨s, found, -⟩ := lookup_of_report stored c c' report
    exact absurd (found.symm.trans none) (Option.some_ne_none s)
  · intro none
    by_contra found
    obtain ⟨ip', city', val, report, key⟩ := exists_report_of_lookup c c' found
    obtain rfl := alone ip' city' val report key.symm
    obtain rfl : city' = city := by simpa [String.append_assoc] using key.symm
    exact none ⟨val, report⟩

theorem finds_iff (stored : Stored g) (c c' : Choices) (city ip : String) :
    let edgeAgg := getAggMap c' (g.rebuildAggregate c)
    Finds g edgeAgg city ip (some ((edgeAgg.lookup (city ++ "-" ++ ip)).getD ⟨1, 50⟩)) ↔
      Alone g city ip := by
  intro edgeAgg
  constructor
  · intro finds ip' city' val report clash
    obtain ⟨s, found, -⟩ := lookup_of_report stored c c' report
    rw [clash] at found
    -- something is found, so the node has reported: its address has no dash
    have reported : ∃ val, Reported g ip city val := by
      by_contra none
      exact absurd (found.symm.trans (finds.unreported.mpr none)) (Option.some_ne_none s)
    obtain ⟨-, node, mem, rfl, -⟩ := reported
    exact alone_of_plain stored city (stored.plain node mem) ip' city' val report clash
  · intro alone
    have unreported := unreported_of_alone stored c c' alone
    refine ⟨fun val report => ?_, unreported, fun none => ?_⟩
    · obtain ⟨s, found, fields⟩ := lookup_of_report stored c c' report
      refine ⟨s, ?_, fields⟩
      rw [found]
      rfl
    · rw [unreported.mpr none]
      rfl

/-- **The routers find the report of a node** exactly if no other node has one under the same
key, as is the case if the address of the node has no dash. The order in which the loops
meet the entries plays no part. -/
theorem report_found_iff (stored : Stored g) {nodeTel : NodeTel ℚ} {ip : String}
    {tel : NodeTelemetry ℚ} (known : nodeTel.lookup ip = some tel) (source : EndPoint)
    (c c' : Choices) :
    let edgeAgg := getAggMap c' (g.rebuildAggregate c)
    (∀ rt ∈ answers nodeTel edgeAgg source ip,
      Finds g edgeAgg source.city ip rt ↔ Alone g source.city ip) ∧
    ('-' ∉ ip.toList → Alone g source.city ip) ∧
    ∀ d d', answers nodeTel (getAggMap d' (g.rebuildAggregate d)) source ip =
      answers nodeTel edgeAgg source ip := by
  intro edgeAgg
  have same : ∀ agg : EdgeAgg ℚ, answers nodeTel agg source ip =
      List.replicate 3 (some ((agg.lookup (source.city ++ "-" ++ ip)).getD ⟨1, 50⟩)) := by
    intro agg
    rw [← getNodeRT_known known]
    rfl
  refine ⟨fun rt mem => ?_, alone_of_plain stored source.city, fun d d' => ?_⟩
  · rw [same] at mem
    obtain rfl := List.eq_of_mem_replicate mem
    exact finds_iff stored c c' source.city ip
  · rw [same, same]
    simp only [edgeAgg, Control.getAggMap_lookup, Control.rebuildAggregate_lookup]

end

/-! ## A city with a dash in its name -/

/-- One node has a report for one city. -/
def oneReport : GlobalStats :=
  { Control.newGlobalStats with
    nodeLast := (∅ : Dict String Control.LastTelemetry).insert "1.2.3.4"
      ⟨[("Frankfurt-a", ⟨3, 60, 20⟩)], "1.2.3.4"⟩ }

/-- The node is known, and another one by a name with a dash. -/
def dashed : NodeTel ℚ :=
  ((∅ : NodeTel ℚ).insert "1.2.3.4" ⟨"1.2.3.4", "Europe", ⟨50, 0, 2⟩⟩).insert "a-1.2.3.4"
    ⟨"a-1.2.3.4", "Europe", ⟨50, 0, 2⟩⟩

def userIn (city : String) : EndPoint := ⟨"5.6.7.8", "Europe", "DE", city⟩

def oneAgg : EdgeAgg ℚ := getAggMap (fun _ _ => 1) (oneReport.rebuildAggregate fun _ _ => 1)

theorem stored_oneReport : Stored oneReport :=
  ⟨by decide +kernel, by decide +kernel, by decide +kernel⟩

theorem report_found_dashed_city :
    some ⟨3, 20⟩ ∈ answers dashed oneAgg (userIn "Frankfurt-a") "1.2.3.4" ∧
      Finds oneReport oneAgg "Frankfurt-a" "1.2.3.4" (some ⟨3, 20⟩) := by
  have mem : some ⟨3, 20⟩ ∈ answers dashed oneAgg (userIn "Frankfurt-a") "1.2.3.4" := by
    decide +kernel
  have known : dashed.lookup "1.2.3.4" = some ⟨"1.2.3.4", "Europe", ⟨50, 0, 2⟩⟩ := rfl
  have found := report_found_iff stored_oneReport known (userIn "Frankfurt-a") (fun _ _ => 1)
    fun _ _ => 1
  exact ⟨mem, (found.1 _ mem).mpr (found.2.1 (by decide +kernel))⟩

/-- The other node has reported nothing, and is taken to be 20 milliseconds from Frankfurt. -/
theorem other_report_found :
    (¬ ∃ val, Reported oneReport "a-1.2.3.4" "Frankfurt" val) ∧
      some ⟨3, 20⟩ ∈ answers dashed oneAgg (userIn "Frankfurt") "a-1.2.3.4" ∧
      ¬ Finds oneReport oneAgg "Frankfurt" "a-1.2.3.4" (some ⟨3, 20⟩) := by
  have names : ∀ node ∈ oneReport.nodeLast.values, node.ip ≠ "a-1.2.3.4" := by decide +kernel
  have none : ¬ ∃ val, Reported oneReport "a-1.2.3.4" "Frankfurt" val := by
    rintro ⟨val, node, mem, name, -⟩
    exact names node mem name
  refine ⟨none, by decide +kernel, fun finds => ?_⟩
  exact absurd (finds.default none) (by decide +kernel)

end SkyAccel.LastMile
