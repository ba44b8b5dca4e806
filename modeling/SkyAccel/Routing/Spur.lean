import SkyAccel.Lib.Deviation
import SkyAccel.Routing.Search

/-!
# The search at a spur node

Each round of Yen's loop searches, for every proper beginning `r` of a path
already found, a way on that leaves `r` by a step no found path takes. The search
runs in the graph `spurGraph`, from the last node of `r`, around the other nodes
of `r`. `spurPath_iff`: its walks without repetition are exactly the ends of the
simple paths that deviate at `r`. `deviation` is the path such a search adds to the
candidates.
-/

namespace SkyAccel.Routing

open Walk (IsWalk IsPath cost)
open Deviation (Root Untaken Deviates)

/-! ## The helpers on hop lists -/

theorem changesAfter_of_nodup {last : String} {hops : List String} (h : (last :: hops).Nodup) :
    changesAfter last hops = hops := by
  induction hops generalizing last with
  | nil => rfl
  | cons hop hops ih =>
    rw [List.nodup_cons] at h
    have ne : hop ≠ last := by rintro rfl; exact h.1 List.mem_cons_self
    rw [changesAfter, if_pos ne, ih h.2]

theorem removeConsecutiveDuplicates_of_nodup {hops : List String} (h : hops.Nodup) :
    removeConsecutiveDuplicates hops = hops := by
  cases hops with
  | nil => rfl
  | cons hop hops => rw [removeConsecutiveDuplicates, changesAfter_of_nodup h]

theorem repeats_eq_false {seen hops : List String} :
    repeats seen hops = false ↔ hops.Nodup ∧ ∀ hop ∈ hops, hop ∉ seen := by
  induction hops generalizing seen with
  | nil => simp [repeats]
  | cons hop hops ih =>
    by_cases h : hop ∈ seen
    · simp [repeats, h]
    · simp only [repeats, h, if_false, ih, List.nodup_cons, List.mem_cons, not_or]
      constructor
      · rintro ⟨nodup, fresh⟩
        refine ⟨⟨fun hm => (fresh hop hm).1 rfl, nodup⟩, ?_⟩
        rintro x (rfl | hx)
        · exact h
        · exact (fresh x hx).2
      · rintro ⟨⟨hm, nodup⟩, fresh⟩
        refine ⟨nodup, fun x hx => ⟨?_, fresh x (.inr hx)⟩⟩
        rintro rfl
        exact hm hx

theorem hasDuplicateNodes_eq_false {hops : List String} :
    hasDuplicateNodes hops = false ↔ hops.Nodup := by
  simp [hasDuplicateNodes, repeats_eq_false]

theorem isInPath_iff {node : String} {path : List String} :
    isInPath node path = true ↔ node ∈ path := by
  simp [isInPath]

/-! ## The graph of a spur search -/

def hopLists (A : List Path) : List (List String) := A.map Path.hops

theorem mem_hopLists {A : List Path} {p : List String} :
    p ∈ hopLists A ↔ ∃ a ∈ A, a.hops = p := by
  simp [hopLists]

/-- No found path steps from the end of `r` to `v`. -/
def untaken (A : List Path) (r : List String) (v : String) : Bool :=
  A.all fun a => !(r ++ [v]).isPrefixOf a.hops

theorem untaken_iff {A : List Path} {r : List String} {v : String} :
    untaken A r v = true ↔ Untaken (hopLists A) r v := by
  simp [untaken, Untaken, hopLists, List.all_eq_true, ← List.isPrefixOf_iff_prefix]

theorem dropNext_eq {r : List String} {j : Nat} (hr : r.length = j + 1) (es : List Edge)
    (a : Path) : KShortestSolver.dropNext r j es a =
      es.filter fun e => !(r ++ [e.destinationIp]).isPrefixOf a.hops := by
  unfold KShortestSolver.dropNext
  by_cases hp : r <+: a.hops
  · obtain ⟨t, ht⟩ := hp
    have long : j < a.hops.length := by rw [← ht, List.length_append]; omega
    have share : pathsSharePrefix a.hops r = true := by
      unfold pathsSharePrefix
      rw [if_neg (by omega), List.isPrefixOf_iff_prefix]
      exact ⟨t, ht⟩
    have next : a.hops[j + 1]? = t.head? := by
      rw [← ht, ← hr, List.getElem?_append_right (le_refl _), Nat.sub_self]
      cases t <;> rfl
    rw [if_pos ⟨long, share⟩, next]
    cases t with
    | nil =>
      simp only [List.head?_nil]
      symm
      rw [List.filter_eq_self]
      intro e _
      rw [Bool.not_eq_true', Bool.eq_false_iff, Ne, List.isPrefixOf_iff_prefix, ← ht,
        List.append_nil]
      intro h
      have := h.length_le
      simp at this
    | cons b t =>
      simp only [List.head?_cons]
      apply List.filter_congr
      intro e _
      rw [Bool.eq_iff_iff, bne_iff_ne, Bool.not_eq_true', Bool.eq_false_iff, Ne, Ne,
        List.isPrefixOf_iff_prefix, ← ht, List.prefix_append_right_inj]
      simp
  · have hne : ¬ (j < a.hops.length ∧ pathsSharePrefix a.hops r = true) := by
      rintro ⟨long, share⟩
      unfold pathsSharePrefix at share
      rw [if_neg (by omega), List.isPrefixOf_iff_prefix] at share
      exact hp share
    rw [if_neg hne]
    symm
    rw [List.filter_eq_self]
    intro e _
    rw [Bool.not_eq_true', Bool.eq_false_iff, Ne, List.isPrefixOf_iff_prefix]
    exact fun h => hp ((List.prefix_append _ _).trans h)

/-- The filters of the spur edges, as one filter. -/
theorem spurEdges_eq (A : List Path) {r : List String} {j : Nat} (hr : r.length = j + 1)
    (out : List Edge) :
    KShortestSolver.spurEdges A r j out = out.filter fun e =>
      !isInPath e.destinationIp r && untaken A r e.destinationIp := by
  have run : ∀ (A : List Path) (es : List Edge),
      A.foldl (KShortestSolver.dropNext r j) es =
        es.filter fun e => untaken A r e.destinationIp := by
    intro A
    induction A with
    | nil => intro es; simp [untaken]
    | cons a A ih =>
      intro es
      rw [List.foldl_cons, ih, dropNext_eq hr, List.filter_filter]
      simp only [untaken, List.all_cons, Bool.and_comm]
  rw [KShortestSolver.spurEdges, run, List.filter_filter]
  exact List.filter_congr fun e _ => Bool.and_comm _ _

def spurNode (r : List String) : String := r.getLast?.getD ""

/-- The graph during the search at the end of `r`. -/
def spurGraph (edges : List Edge) (A : List Path) (r : List String) : Adjacency :=
  (adjacency edges).insert (spurNode r)
    (KShortestSolver.spurEdges A r (r.length - 1) (outgoing (adjacency edges) (spurNode r)))

/-- The forbidden nodes of the search at the end of `r`. -/
def onRoot (r : List String) (v : String) : Bool := isInPath v r.dropLast

theorem dropLast_spurNode {r : List String} (hr : r ≠ []) : r.dropLast ++ [spurNode r] = r := by
  rw [spurNode, List.getLast?_eq_some_getLast hr, Option.getD_some, List.dropLast_concat_getLast hr]

section
variable {ks : KShortestSolver} {edges : List Edge} {A : List Path} {r q : List String}
  {start dest : String}

theorem outgoing_spurGraph (hr : r ≠ []) (u : String) :
    outgoing (spurGraph edges A r) u = (edges.filter fun e => e.sourceIp == u).filter fun e =>
      u != spurNode r || (!isInPath e.destinationIp r && untaken A r e.destinationIp) := by
  have len : r.length = r.length - 1 + 1 := by
    have := List.length_pos_iff.mpr hr
    omega
  by_cases hu : u = spurNode r
  · subst hu
    rw [spurGraph, outgoing_insert, spurEdges_eq A len, outgoing_adjacency]
    simp
  · have elsewhere : (u != spurNode r) = true := bne_iff_ne.mpr hu
    rw [spurGraph, outgoing_insert_ne _ hu, outgoing_adjacency]
    simp [elsewhere]

theorem spurArc_iff (hr : r ≠ []) {u v : String} :
    SearchArc (spurGraph edges A r) (onRoot r) u v ↔
      Arc edges u v ∧ v ∉ r.dropLast ∧
        (u = spurNode r → v ∉ r ∧ Untaken (hopLists A) r v) := by
  have off : onRoot r v = false ↔ v ∉ r.dropLast := by
    rw [onRoot, Bool.eq_false_iff, Ne, isInPath_iff]
  unfold SearchArc Arc
  rw [off, outgoing_spurGraph hr]
  constructor
  · rintro ⟨e, he, rfl, hv⟩
    simp only [List.mem_filter, beq_iff_eq, Bool.or_eq_true, bne_iff_ne, Bool.and_eq_true,
      Bool.not_eq_true', Bool.eq_false_iff, Ne, isInPath_iff, untaken_iff] at he
    exact ⟨⟨e, he.1.1, he.1.2, rfl⟩, hv, fun hu => he.2.resolve_left (not_not.mpr hu)⟩
  · rintro ⟨⟨e, he, hs, rfl⟩, hv, hu⟩
    refine ⟨e, ?_, rfl, hv⟩
    simp only [List.mem_filter, beq_iff_eq, Bool.or_eq_true, bne_iff_ne, Bool.and_eq_true,
      Bool.not_eq_true', Bool.eq_false_iff, Ne, isInPath_iff, untaken_iff]
    refine ⟨⟨he, hs⟩, ?_⟩
    by_cases h : u = spurNode r
    · exact .inr (hu h)
    · exact .inl h

/-- The part of a found path up to a spur node. -/
structure RootPath (edges : List Edge) (start dest : String) (r : List String) : Prop where
  path : IsPath (Arc edges) start (spurNode r) r
  before : dest ∉ r

theorem RootPath.ne_nil (h : RootPath edges start dest r) : r ≠ [] := h.path.ne_nil

theorem rootPath_of_root (paths : ∀ a ∈ A, IsPath (Arc edges) start dest a.hops)
    (root : Root (hopLists A) r) : RootPath edges start dest r := by
  obtain ⟨hr, p, hp, ⟨t, rfl⟩, ne⟩ := root
  obtain ⟨a, ha, eq⟩ := mem_hopLists.mp hp
  have path := eq ▸ paths a ha
  have ht : t ≠ [] := by
    rintro rfl
    simp at ne
  have last : dest ∈ t := by
    have := path.last
    rw [List.getLast?_append_of_ne_nil r ht] at this
    exact List.mem_of_getLast? this
  obtain ⟨nr, -, apart⟩ := List.nodup_append.mp path.nodup
  have walk : IsWalk (Arc edges) start (spurNode r) r := by
    have := path.toIsWalk
    rw [← dropLast_spurNode hr, List.append_assoc, List.singleton_append] at this
    have := (Walk.isWalk_append.mp this).1
    rwa [dropLast_spurNode hr] at this
  exact ⟨⟨walk, nr⟩, fun hd => apart dest hd dest last rfl⟩

theorem spurPath_iff (root : Root (hopLists A) r) (rp : RootPath edges start dest r) :
    IsPath (SearchArc (spurGraph edges A r) (onRoot r)) (spurNode r) dest q ↔
      q.head? = some (spurNode r) ∧ IsPath (Arc edges) start dest (r.dropLast ++ q) ∧
        Deviates (hopLists A) r (r.dropLast ++ q) := by
  have whole := dropLast_spurNode rp.ne_nil
  have same : spurNode r ≠ dest := by
    intro h
    exact rp.before (h ▸ List.mem_of_getLast? rp.path.last)
  have nodup : r.dropLast.Nodup ∧ spurNode r ∉ r.dropLast := by
    have := rp.path.nodup
    rw [← whole, List.nodup_append] at this
    exact ⟨this.1, fun h => this.2.2 _ h _ List.mem_cons_self rfl⟩
  constructor
  · intro path
    obtain ⟨t, rfl⟩ := List.head?_eq_some_iff.mp path.first
    cases t with
    | nil => exact absurd (by simpa using path.last) same
    | cons h t =>
      have step := (spurArc_iff rp.ne_nil).mp (List.isChain_cons_cons.mp path.chain).1
      have merged : r.dropLast ++ spurNode r :: h :: t = r ++ h :: t := by
        conv_rhs => rw [← whole]
        simp
      refine ⟨rfl, ⟨?_, ?_⟩, root, h, ?_, (step.2.2 rfl).2⟩
      · rw [Walk.isWalk_append, whole]
        exact ⟨rp.path.toIsWalk,
          path.toIsWalk.mono fun _ _ arc => ((spurArc_iff rp.ne_nil).mp arc).1⟩
      · refine List.nodup_append.mpr ⟨nodup.1, path.nodup, ?_⟩
        rintro x hx y hy rfl
        rcases path.mem_targets x hy with rfl | ⟨z, arc⟩
        · exact nodup.2 hx
        · exact ((spurArc_iff rp.ne_nil).mp arc).2.1 hx
      · rw [merged]
        exact ⟨t, by simp⟩
  · rintro ⟨first, path, -, h, hh, untaken⟩
    obtain ⟨t, rfl⟩ := List.head?_eq_some_iff.mp first
    have walk := (Walk.isWalk_append.mp path.toIsWalk).2
    obtain ⟨-, nq, apart⟩ := List.nodup_append.mp path.nodup
    refine ⟨⟨walk.first, walk.last, ?_⟩, nq⟩
    cases t with
    | nil => exact .singleton _
    | cons b t =>
      have merged : r.dropLast ++ spurNode r :: b :: t = r ++ b :: t := by
        conv_rhs => rw [← whole]
        simp
      obtain rfl : h = b := by
        rw [merged, List.prefix_append_right_inj] at hh
        simpa using hh
      obtain ⟨arc, chain⟩ := List.isChain_cons_cons.mp walk.chain
      have fresh : ∀ x ∈ h :: t, x ∉ r.dropLast := fun x hx hr =>
        apart x hr x (List.mem_cons_of_mem _ hx) rfl
      obtain ⟨ns, -⟩ := List.nodup_cons.mp nq
      refine .cons_cons ((spurArc_iff rp.ne_nil).mpr ⟨arc, fresh h List.mem_cons_self, ?_⟩) ?_
      · intro _
        refine ⟨fun hr => ?_, untaken⟩
        rw [← whole, List.mem_append, List.mem_singleton] at hr
        rcases hr with hr | hr
        · exact fresh h List.mem_cons_self hr
        · exact ns (hr ▸ List.mem_cons_self)
      · refine chain.imp_of_mem_imp fun x y hx hy arc => ?_
        refine (spurArc_iff rp.ne_nil).mpr ⟨arc, fresh y hy, ?_⟩
        rintro rfl
        exact absurd hx ns

/-! ## What the search finds -/

/-- A solver as its constructors build it, over a well-formed edge list. -/
structure KShortestSolver.Proper (ks : KShortestSolver) : Prop where
  edges : WellFormed ks.edges
  alpha : ks.alpha = 1

/-- The measure of an edge that path costs add up. -/
def metric (useLatency : Bool) (e : Edge) : ℚ := if useLatency then e.latency else e.edgeWeight

theorem KShortestSolver.Proper.weight_eq (proper : ks.Proper) :
    ks.weight = metric ks.useLatency := by
  funext e
  rw [KShortestSolver.weight, metric, proper.alpha, mul_one, mul_one]

theorem KShortestSolver.Proper.nonneg (proper : ks.Proper) : ∀ e ∈ ks.edges, 0 ≤ ks.weight e := by
  intro e he
  obtain ⟨hw, hl⟩ := proper.edges.nonneg e he
  rw [proper.weight_eq, metric]
  split
  · exact hl
  · exact hw

theorem KShortestSolver.Proper.sane (proper : ks.Proper) :
    Sane ks ks.edges (adjacency ks.edges) where
  keyed := fun u => by rw [outgoing_adjacency]
  one := proper.edges.one
  nonneg := proper.nonneg
  named := fun e he => ⟨(proper.edges.named e he).1.1, (proper.edges.named e he).2.1⟩

theorem KShortestSolver.Proper.sane_spur (proper : ks.Proper) (A : List Path) (hr : r ≠ []) :
    Sane ks ks.edges (spurGraph ks.edges A r) where
  keyed := fun u => by
    rw [outgoing_spurGraph hr]
    exact List.filter_sublist
  one := proper.edges.one
  nonneg := proper.nonneg
  named := proper.sane.named

/-- A simple path of the graph with its exact cost and latency. -/
structure Exact (ks : KShortestSolver) (start dest : String) (p : Path) : Prop where
  path : IsPath (Arc ks.edges) start dest p.hops
  cost : p.cost = cost (along ks.edges ks.weight) p.hops
  rawRTT : p.rawRTT = (Walk.cost (along ks.edges Edge.latency) p.hops : ℚ)

/-- Fuel for any one search of the solver. -/
def KShortestSolver.searchFuel (ks : KShortestSolver) : Nat := ks.edges.length + 2

def KShortestSolver.spurSearch (ks : KShortestSolver) (dest : String) (A : List Path)
    (r : List String) : Option (Except String Path) :=
  ks.findShortestPath (spurNode r) dest (spurGraph ks.edges A r) (onRoot r) (fun _ => false)
    ks.searchFuel

/-- The root followed by a path found from its end. -/
def KShortestSolver.extend (ks : KShortestSolver) (r : List String) (spurPath : Path) : Path where
  hops := r.dropLast ++ spurPath.hops
  cost := cost (along ks.edges ks.weight) r + spurPath.cost
  rawRTT := (cost (along ks.edges Edge.latency) r : ℚ) + spurPath.rawRTT

/-- The candidate that the search at the end of `r` gives. -/
def KShortestSolver.deviation (ks : KShortestSolver) (dest : String) (A : List Path)
    (r : List String) : Option Path :=
  match ks.spurSearch dest A r with
  | some (.ok spurPath) => some (ks.extend r spurPath)
  | _ => none

theorem cost_extend (w : String → String → ℚ) (hr : r ≠ []) (hq : q.head? = some (spurNode r)) :
    cost w (r.dropLast ++ q) = cost w r + cost w q := by
  obtain ⟨t, rfl⟩ := List.head?_eq_some_iff.mp hq
  rw [Walk.cost_append, dropLast_spurNode hr]

theorem RootPath.spurNode_ne (proper : ks.Proper) (rp : RootPath ks.edges start dest r)
    (hstart : start ≠ "") : spurNode r ≠ "" := by
  rcases rp.path.mem_targets _ (List.mem_of_getLast? rp.path.last) with h | ⟨u, e, he, -, h⟩
  · rw [h]; exact hstart
  · rw [← h]; exact (proper.edges.named e he).2.1

/-- The search at a root fails only if no simple path deviates there; a path it
gives deviates there and has its exact cost and latency. -/
theorem spurSearch_spec (proper : ks.Proper) (hstart : start ≠ "")
    (root : Root (hopLists A) r) (rp : RootPath ks.edges start dest r) :
    (∃ err, ks.spurSearch dest A r = some (.error err) ∧
      ∀ p, IsPath (Arc ks.edges) start dest p → ¬ Deviates (hopLists A) r p) ∨
    (∃ spurPath, ks.spurSearch dest A r = some (.ok spurPath) ∧ spurPath.hops.Nodup ∧
      Exact ks start dest (ks.extend r spurPath) ∧
      Deviates (hopLists A) r (ks.extend r spurPath).hops) := by
  have whole := dropLast_spurNode rp.ne_nil
  rcases findShortestPath_spec (proper.sane_spur A rp.ne_nil) (onRoot r)
      (rp.spurNode_ne proper hstart) dest (le_refl _) with
    ⟨err, eq, none⟩ | ⟨spurPath, eq, path, hcost, hrtt⟩
  · refine .inl ⟨err, eq, fun p hp dev => ?_⟩
    obtain ⟨t, rfl⟩ := dev.proper.1
    have shape : r ++ t = r.dropLast ++ spurNode r :: t := by
      conv_lhs => rw [← whole]
      simp
    rw [shape] at hp dev
    exact none _ ((spurPath_iff root rp).mpr ⟨rfl, hp, dev⟩).toIsWalk
  · obtain ⟨first, simple, dev⟩ := (spurPath_iff root rp).mp path
    refine .inr ⟨spurPath, eq, path.nodup, ⟨simple, ?_, ?_⟩, dev⟩
    · rw [KShortestSolver.extend, cost_extend _ rp.ne_nil first, hcost]
    · rw [KShortestSolver.extend, cost_extend _ rp.ne_nil first, hrtt, WithTop.coe_add]

theorem deviation_spec (proper : ks.Proper) (hstart : start ≠ "")
    (found : ∀ a ∈ A, Exact ks start dest a) (root : Root (hopLists A) r) :
    (ks.deviation dest A r = none ∧
      ∀ p, IsPath (Arc ks.edges) start dest p → ¬ Deviates (hopLists A) r p) ∨
    (∃ p, ks.deviation dest A r = some p ∧ Exact ks start dest p ∧
      Deviates (hopLists A) r p.hops) := by
  have rp := rootPath_of_root (fun a ha => (found a ha).path) root
  rcases spurSearch_spec proper hstart root rp with ⟨err, eq, none⟩ | ⟨q, eq, -, exact', dev⟩
  · exact .inl ⟨by rw [KShortestSolver.deviation, eq], none⟩
  · exact .inr ⟨_, by rw [KShortestSolver.deviation, eq], exact', dev⟩

theorem deviation_some (proper : ks.Proper) (hstart : start ≠ "")
    (found : ∀ a ∈ A, Exact ks start dest a) (root : Root (hopLists A) r) {p : Path}
    (hp : ks.deviation dest A r = some p) :
    Exact ks start dest p ∧ Deviates (hopLists A) r p.hops := by
  rcases deviation_spec proper hstart found root with ⟨no, -⟩ | ⟨p', eq, h⟩
  · rw [no] at hp; cases hp
  · obtain rfl := Option.some.inj (eq.symm.trans hp)
    exact h

/-- The candidate at a root is a cheapest path that deviates there exactly when
its search is not cut short. -/
theorem deviation_least (proper : ks.Proper) (hstart : start ≠ "")
    (found : ∀ a ∈ A, Exact ks start dest a) (root : Root (hopLists A) r) {p : Path}
    (hp : ks.deviation dest A r = some p) :
    (∀ q, IsPath (Arc ks.edges) start dest q → Deviates (hopLists A) r q →
      p.cost ≤ cost (along ks.edges ks.weight) q) ↔
    ¬ CutsShort ks ks.edges (spurNode r) dest (spurGraph ks.edges A r) (onRoot r) := by
  have rp := rootPath_of_root (fun a ha => (found a ha).path) root
  have whole := dropLast_spurNode rp.ne_nil
  rw [KShortestSolver.deviation] at hp
  split at hp
  · rename_i spurPath eq
    obtain rfl := Option.some.inj hp
    have sane := proper.sane_spur A rp.ne_nil
    rw [← findShortestPath_least sane (onRoot r) (rp.spurNode_ne proper hstart) (le_refl _) eq]
    constructor
    · intro least q walk
      obtain ⟨q', path, le⟩ := Walk.exists_path_le
        (fun a b h => SearchArc.nonneg sane a b h) walk
      obtain ⟨first, simple, dev⟩ := (spurPath_iff root rp).mp path
      have := least _ simple dev
      rw [cost_extend _ rp.ne_nil first, KShortestSolver.extend] at this
      linarith
    · intro least q simple dev
      obtain ⟨t, rfl⟩ := dev.proper.1
      have shape : r ++ t = r.dropLast ++ spurNode r :: t := by
        conv_lhs => rw [← whole]
        simp
      rw [shape] at simple dev ⊢
      have := least _ ((spurPath_iff root rp).mpr ⟨rfl, simple, dev⟩).toIsWalk
      rw [cost_extend _ rp.ne_nil rfl, KShortestSolver.extend]
      linarith
  · cases hp

/-- A path added at another root leaves the candidate of this one alone. -/
theorem deviation_append {r' : List String} {p : Path} (root : Root (hopLists A) r)
    (dev : Deviates (hopLists A) r' p.hops) (ne : r ≠ r') :
    ks.deviation dest (A ++ [p]) r = ks.deviation dest A r := by
  have same : untaken (A ++ [p]) r = untaken A r := by
    funext v
    rw [Bool.eq_iff_iff, untaken_iff, untaken_iff, ← dev.untaken_append root ne]
    simp [hopLists]
  have len : r.length = r.length - 1 + 1 := by
    have := List.length_pos_iff.mpr root.1
    omega
  have graph : spurGraph ks.edges (A ++ [p]) r = spurGraph ks.edges A r := by
    rw [spurGraph, spurGraph, spurEdges_eq _ len, spurEdges_eq _ len, same]
  rw [KShortestSolver.deviation, KShortestSolver.deviation, KShortestSolver.spurSearch,
    KShortestSolver.spurSearch, graph]

end

end SkyAccel.Routing
