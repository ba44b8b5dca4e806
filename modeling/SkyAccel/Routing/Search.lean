import SkyAccel.Routing.KShortest

/-!
# What the search for one path answers

The loop of `findShortestPath` is Dijkstra's algorithm with one rule added: once
the destination has been discovered, no neighbour is relaxed any more. The
invariant `Search.Inv` carries a tree of paths `P`, the nodes relaxed so far
(`done`) and the nodes the added rule has skipped (`cut`).

* `findShortestPath_spec`: enough fuel gives an answer, an error means that no
  walk leads to the destination, and a path found is simple and has exact cost;
* `findShortestPath_least`: it is a cheapest path exactly when no turn of the
  loop skips a node through which the destination is cheaper to reach.
-/

namespace SkyAccel.Routing

open Walk (IsWalk IsPath cost)

/-- The steps a search may take: an edge of the graph into a node not forbidden. -/
def SearchArc (g : Adjacency) (forbidden : String → Bool) (u v : String) : Prop :=
  ∃ e ∈ outgoing g u, e.destinationIp = v ∧ forbidden v = false

/-- What the results assume of a graph: it holds edges of `edges` under their
sources, one for each ordered pair, with non-negative weights and named nodes. -/
structure Sane (ks : KShortestSolver) (edges : List Edge) (g : Adjacency) : Prop where
  keyed : ∀ u, (outgoing g u).Sublist (edges.filter fun e => e.sourceIp == u)
  one : OnePerPair edges
  nonneg : ∀ e ∈ edges, 0 ≤ ks.weight e
  named : ∀ e ∈ edges, e.sourceIp ≠ "" ∧ e.destinationIp ≠ ""

section
variable {ks : KShortestSolver} {edges : List Edge} {g : Adjacency} {forbidden : String → Bool}
  {start dest : String}

theorem Sane.mem (sane : Sane ks edges g) {u : String} {e : Edge} (he : e ∈ outgoing g u) :
    e ∈ edges ∧ e.sourceIp = u := by
  have := (sane.keyed u).subset he
  simpa using this

theorem Sane.along (sane : Sane ks edges g) (f : Edge → ℚ) {u : String} {e : Edge}
    (he : e ∈ outgoing g u) : along edges f u e.destinationIp = f e := by
  obtain ⟨mem, rfl⟩ := sane.mem he
  exact along_eq sane.one f mem

theorem SearchArc.arc (sane : Sane ks edges g) {u v : String} (h : SearchArc g forbidden u v) :
    Arc edges u v := by
  obtain ⟨e, he, rfl, -⟩ := h
  obtain ⟨mem, src⟩ := sane.mem he
  exact ⟨e, mem, src, rfl⟩

theorem SearchArc.nonneg (sane : Sane ks edges g) (u v : String)
    (_ : SearchArc g forbidden u v) : 0 ≤ Routing.along edges ks.weight u v :=
  along_nonneg sane.nonneg u v

theorem hasNode_of_mem {u : String} {e : Edge} (he : e ∈ outgoing g u) :
    hasNode g e.destinationIp = true := by
  unfold outgoing at he
  cases hl : g.lookup u with
  | none => simp [hl] at he
  | some es =>
    have hm : ⟨u, es⟩ ∈ g.entries := AList.mem_lookup_iff.mp hl
    simp only [hasNode, List.any_eq_true, Bool.or_eq_true, beq_iff_eq]
    exact ⟨_, hm, .inr ⟨e, by simpa [hl] using he, rfl⟩⟩

/-- A node with a known distance. -/
def Search.Reached (start : String) (s : Search) (v : String) : Prop := v = start ∨ s.prev v ≠ ""

/-- The invariant of the search loop, for the weights `w` and latencies `l` of
node pairs. `P` gives each reached node its path in the tree of `prev`, `L` is
the cost of the last entry popped, and the edges in `todo` are those of the node
being relaxed that are still to be looked at. -/
structure Search.Inv (g : Adjacency) (forbidden : String → Bool) (start dest : String)
    (w l : String → String → ℚ) (s : Search) (done cut : List String)
    (P : String → List String) (L : ℚ) (todo : List Edge) : Prop where
  heap : Heap.Ordered PQNode.cost s.pq
  root : P start = [start] ∧ s.prev start = ""
  path : ∀ v, s.Reached start v → IsPath (SearchArc g forbidden) start v (P v)
  dist : ∀ v, s.Reached start v → s.dist v = (cost w (P v) : ℚ)
  rawRTT : ∀ v, s.Reached start v → s.rawRTT v = (cost l (P v) : ℚ)
  inner : ∀ v, s.Reached start v → ∀ x ∈ (P v).dropLast, x ∈ done
  link : ∀ v, s.prev v ≠ "" → P v = P (s.prev v) ++ [v] ∧ s.prev v ∈ done
  fresh : ∀ v, ¬ s.Reached start v → s.dist v = if hasNode g v then ⊤ else 0
  reached : ∀ u ∈ done, s.Reached start u
  floor : ∀ u ∈ done, cost w (P u) ≤ L
  above : ∀ x ∈ s.pq, L ≤ x.cost
  queued : ∀ x ∈ s.pq, s.Reached start x.node ∧ cost w (P x.node) ≤ x.cost ∧
    (x.node ∈ done → cost w (P x.node) < x.cost)
  entries : (s.pq.map fun x => (x.node, x.cost)).Nodup
  waiting : ∀ v, s.Reached start v → v ∈ done ∨ v ∈ cut ∨
    ∃ x ∈ s.pq, x.node = v ∧ x.cost = cost w (P v)
  relaxed : ∀ u ∈ done, ∀ e ∈ outgoing g u, forbidden e.destinationIp = false → e ∉ todo →
    s.Reached start e.destinationIp ∧
      cost w (P e.destinationIp) ≤ cost w (P u) + w u e.destinationIp
  notDest : dest ∉ done ∧ dest ∉ cut
  skipped : cut ≠ [] → s.dist dest ≠ ⊤

variable {w l : String → String → ℚ} {s : Search} {done cut : List String}
  {P : String → List String} {L : ℚ} {todo : List Edge}

theorem Search.Inv.reached_iff (inv : Inv g forbidden start dest w l s done cut P L todo)
    {v : String} (hv : hasNode g v = true) : s.Reached start v ↔ s.dist v ≠ ⊤ := by
  constructor
  · intro h; rw [inv.dist v h]; exact WithTop.coe_ne_top
  · intro h
    by_contra hr
    exact h (by rw [inv.fresh v hr, if_pos hv])

/-- A destination with a distance is reached, if it can be walked to at all. -/
theorem Search.Inv.reached_of_found (inv : Inv g forbidden start dest w l s done cut P L todo)
    (found : s.dist dest ≠ ⊤) {v : String} {q : List String} (hv : s.Reached start v)
    (hq : IsWalk (SearchArc g forbidden) v dest q) : s.Reached start dest := by
  rcases hq.mem_targets dest (List.mem_of_getLast? hq.last) with rfl | ⟨y, e, he, rfl, -⟩
  · exact hv
  · exact (inv.reached_iff (hasNode_of_mem he)).mpr found

/-- With an empty queue every reached node is done or skipped, and no walk leads on to the
destination. -/
theorem Search.Inv.no_walk (inv : Inv g forbidden start dest w l s done cut P L [])
    (empty : s.pq = []) (p : List String) : ¬ IsWalk (SearchArc g forbidden) start dest p := by
  have left : ∀ v, s.Reached start v → v ∈ done ∨ v ∈ cut := by
    intro v hv
    rcases inv.waiting v hv with hd | hc | ⟨x, hx, -⟩
    · exact .inl hd
    · exact .inr hc
    · rw [empty] at hx
      cases hx
  have stuck : ¬ s.Reached start dest := fun h => (left dest h).elim inv.notDest.1 inv.notDest.2
  have closed : ∀ (q : List String) (v : String), s.Reached start v →
      ¬ IsWalk (SearchArc g forbidden) v dest q := by
    intro q
    induction q with
    | nil => exact fun v _ hq => hq.ne_nil rfl
    | cons a q ih =>
      intro v hv hq
      obtain rfl : a = v := by simpa using hq.first
      cases q with
      | nil =>
        obtain rfl : a = dest := by simpa using hq.last
        exact stuck hv
      | cons b q =>
        obtain ⟨⟨e, he, rfl, hf⟩, rest⟩ := List.isChain_cons_cons.mp hq.chain
        have hlast : (e.destinationIp :: q).getLast? = some dest := by simpa using hq.last
        rcases left a hv with hd | hc
        · exact ih _ (inv.relaxed a hd e he hf List.not_mem_nil).1 ⟨rfl, hlast, rest⟩
        · -- a skipped node means that the destination was discovered
          exact stuck (inv.reached_of_found (inv.skipped (List.ne_nil_of_mem hc)) hv hq)
  exact closed p start (.inl rfl)

/-- An edge looked at without improving anything counts as relaxed. -/
theorem Search.Inv.skip {u : String} {e : Edge} (one : ∀ u', e ∈ outgoing g u' → u' = u)
    (inv : Inv g forbidden start dest w l s done cut P L (e :: todo))
    (h : forbidden e.destinationIp = false → s.Reached start e.destinationIp ∧
      cost w (P e.destinationIp) ≤ cost w (P u) + w u e.destinationIp) :
    Inv g forbidden start dest w l s done cut P L todo := by
  refine { inv with relaxed := fun u' hu' e' he' hf ht => ?_ }
  by_cases same : e' = e
  · subst same
    rw [one u' he']
    exact h hf
  · exact inv.relaxed u' hu' e' he' hf (by simp [same, ht])

/-- The state after a node `v` got a better distance through `u`. -/
def Search.improve (s : Search) (u v : String) (newCost : ℚ) (newRTT : WithTop ℚ) : Search where
  dist := Function.update s.dist v newCost
  rawRTT := Function.update s.rawRTT v newRTT
  prev := Function.update s.prev v u
  pq := Heap.push byCost s.pq ⟨v, newCost, 0⟩

theorem relax_eq (ks : KShortestSolver) (u : String) (c : ℚ) (forbidden : String → Bool)
    (s : Search) (e : Edge) :
    ks.relax u c forbidden (fun _ => false) s e =
      if forbidden e.destinationIp = true then s
      else if ((c + ks.weight e : ℚ) : WithTop ℚ) < s.dist e.destinationIp then
        s.improve u e.destinationIp (c + ks.weight e) (s.rawRTT u + e.latency)
      else s := by
  simp only [KShortestSolver.relax, Bool.false_eq_true, if_false]
  rfl

theorem Search.improve_reached {s : Search} {u v x : String} {c : ℚ} {r : WithTop ℚ} (hu : u ≠ "") :
    (s.improve u v c r).Reached start x ↔ x = v ∨ s.Reached start x := by
  unfold Reached improve
  by_cases h : x = v
  · subst h; simp [hu]
  · simp [h]

/-- What holds of every reached node and its path once `v` has a new path. -/
theorem Search.improve_forall {s : Search} {u v : String} {c : ℚ} {r : WithTop ℚ} (hu : u ≠ "")
    {P : String → List String} {p : List String} {Q : String → List String → Prop} (here : Q v p)
    (others : ∀ x, x ≠ v → s.Reached start x → Q x (P x)) :
    ∀ x, (s.improve u v c r).Reached start x → Q x (Function.update P v p x) := by
  intro x hx
  by_cases h : x = v
  · subst h
    rw [Function.update_self]
    exact here
  · rw [Function.update_of_ne h]
    exact others x h (((improve_reached hu).mp hx).resolve_left h)

theorem Search.mem_improve {s : Search} {u v : String} {c : ℚ} {r : WithTop ℚ} {x : PQNode} :
    x ∈ (s.improve u v c r).pq ↔ x = ⟨v, c, 0⟩ ∨ x ∈ s.pq := by
  rw [improve, (Heap.push_perm PQNode.cost s.pq ⟨v, c, 0⟩).mem_iff, List.mem_cons]

/-- Nodes of the tree above a relaxed one are relaxed. -/
theorem Search.Inv.path_done (inv : Inv g forbidden start dest w l s done cut P L todo) {u : String}
    (hu : u ∈ done) : ∀ x ∈ P u, x ∈ done := by
  have ru := inv.reached u hu
  obtain ⟨p, hp⟩ := List.getLast?_eq_some_iff.mp (inv.path u ru).last
  intro x hx
  rw [hp, List.mem_append, List.mem_singleton] at hx
  rcases hx with hx | rfl
  · apply inv.inner u ru
    rw [hp, List.dropLast_concat]
    exact hx
  · exact hu

/-- A node whose distance can be lowered is neither relaxed nor the start. -/
theorem Search.Inv.not_done_of_better {u v : String}
    (inv : Inv g forbidden start dest w l s done cut P L todo) (hwuv : 0 ≤ w u v)
    (better : ((L + w u v : ℚ) : WithTop ℚ) < s.dist v) : v ∉ done := by
  intro h
  rw [inv.dist v (inv.reached v h), WithTop.coe_lt_coe] at better
  have := inv.floor v h
  linarith

theorem Search.Inv.ne_start_of_better {u v : String}
    (inv : Inv g forbidden start dest w l s done cut P L todo) (hu : u ∈ done)
    (hL : L = cost w (P u)) (hw : ∀ a b, SearchArc g forbidden a b → 0 ≤ w a b) (hwuv : 0 ≤ w u v)
    (better : ((L + w u v : ℚ) : WithTop ℚ) < s.dist v) : v ≠ start := by
  rintro rfl
  have hd := inv.dist v (.inl rfl)
  rw [inv.root.1] at hd
  rw [hd, WithTop.coe_lt_coe, hL, Walk.cost_singleton] at better
  have := Walk.cost_nonneg hw (inv.path u (inv.reached u hu)).chain
  linarith

/-- The entries of such a node that are already queued cost more than the new one. -/
theorem Search.Inv.lt_queued_of_better {u v : String}
    (inv : Inv g forbidden start dest w l s done cut P L todo)
    (better : ((L + w u v : ℚ) : WithTop ℚ) < s.dist v) :
    ∀ x ∈ s.pq, x.node = v → L + w u v < x.cost := by
  intro x hx hxv
  obtain ⟨rx, le, -⟩ := inv.queued x hx
  rw [hxv] at rx le
  rw [inv.dist v rx, WithTop.coe_lt_coe] at better
  exact lt_of_lt_of_le better le

/-- The tree path of a relaxed node, extended by a node that is not relaxed. -/
theorem Search.Inv.path_snoc {u v : String}
    (inv : Inv g forbidden start dest w l s done cut P L todo) (hu : u ∈ done) (hv : v ∉ done)
    (arc : SearchArc g forbidden u v) :
    IsPath (SearchArc g forbidden) start v (P u ++ [v]) := by
  have path := inv.path u (inv.reached u hu)
  refine ⟨path.toIsWalk.snoc arc, List.nodup_append.mpr ⟨path.nodup, List.nodup_singleton v, ?_⟩⟩
  intro a ha b hb same
  apply hv
  rw [← List.mem_singleton.mp hb, ← same]
  exact inv.path_done hu a ha

theorem Search.Inv.improve {u v : String} {e : Edge} (hv : e.destinationIp = v)
    (inv : Inv g forbidden start dest w l s done [] P L (e :: todo))
    (one : ∀ u', e ∈ outgoing g u' → u' = u) (he : e ∈ outgoing g u) (hu : u ∈ done)
    (huName : u ≠ "") (hL : L = cost w (P u)) (hw : ∀ a b, SearchArc g forbidden a b → 0 ≤ w a b)
    (hf : forbidden v = false) (better : ((L + w u v : ℚ) : WithTop ℚ) < s.dist v) :
    Inv g forbidden start dest w l (s.improve u v (L + w u v) (s.rawRTT u + l u v)) done []
      (Function.update P v (P u ++ [v])) L todo := by
  have arc : SearchArc g forbidden u v := ⟨e, he, hv, hf⟩
  have hwuv := hw u v arc
  have ru := inv.reached u hu
  have vDone := inv.not_done_of_better hwuv better
  have vStart := inv.ne_start_of_better hu hL hw hwuv better
  have ne_of_done {x : String} (hx : x ∈ done) : x ≠ v := fun h => vDone (h ▸ hx)
  have old {x : String} (hx : x ≠ v) : Function.update P v (P u ++ [v]) x = P x :=
    Function.update_of_ne hx _ _
  have new : Function.update P v (P u ++ [v]) v = P u ++ [v] := Function.update_self _ _ _
  have newCost : cost w (P u ++ [v]) = L + w u v := by
    rw [Walk.cost_snoc w _ u v (inv.path u ru).last, hL]
  have reached {x : String} (hx : s.Reached start x) :
      (s.improve u v (L + w u v) (s.rawRTT u + l u v)).Reached start x :=
    (Search.improve_reached huName).mpr (.inr hx)
  have worse := inv.lt_queued_of_better better
  constructor
  case heap => exact Heap.push_ordered inv.heap _
  case root =>
    exact ⟨by rw [old vStart.symm]; exact inv.root.1,
      by simpa [Search.improve, vStart.symm] using inv.root.2⟩
  case path =>
    exact Search.improve_forall huName (Q := IsPath (SearchArc g forbidden) start)
      (inv.path_snoc hu vDone arc) fun x _ => inv.path x
  case dist =>
    apply Search.improve_forall huName (Q := fun x p => Function.update s.dist v _ x = cost w p)
    · rw [newCost, Function.update_self]
    · intro x h hx
      rw [Function.update_of_ne h]
      exact inv.dist x hx
  case rawRTT =>
    apply Search.improve_forall huName (Q := fun x p => Function.update s.rawRTT v _ x = cost l p)
    · rw [Walk.cost_snoc l _ u v (inv.path u ru).last]
      simp [inv.rawRTT u ru]
    · intro x h hx
      rw [Function.update_of_ne h]
      exact inv.rawRTT x hx
  case inner =>
    apply Search.improve_forall huName (Q := fun _ p => ∀ y ∈ p.dropLast, y ∈ done)
    · rw [List.dropLast_concat]
      exact inv.path_done hu
    · exact fun x _ => inv.inner x
  case link =>
    intro x hx
    by_cases h : x = v
    · subst h
      simp only [Search.improve, Function.update_self]
      rw [old (ne_of_done hu)]
      exact ⟨rfl, hu⟩
    · simp only [Search.improve, Function.update_of_ne h] at hx ⊢
      obtain ⟨eq, mem⟩ := inv.link x hx
      rw [old (ne_of_done mem)]
      exact ⟨eq, mem⟩
  case fresh =>
    intro x hx
    rw [Search.improve_reached huName, not_or] at hx
    simpa [Search.improve, hx.1] using inv.fresh x hx.2
  case reached => exact fun x hx => reached (inv.reached x hx)
  case floor =>
    intro x hx
    rw [old (ne_of_done hx)]
    exact inv.floor x hx
  case above =>
    intro x hx
    rcases Search.mem_improve.mp hx with rfl | hx
    · simpa using hwuv
    · exact inv.above x hx
  case queued =>
    intro x hx
    rcases Search.mem_improve.mp hx with rfl | hx
    · refine ⟨(Search.improve_reached huName).mpr (.inl rfl), ?_, fun h => absurd h vDone⟩
      simp only
      rw [new, newCost]
    · obtain ⟨rx, le, lt⟩ := inv.queued x hx
      refine ⟨reached rx, ?_, fun h => ?_⟩
      · by_cases h : x.node = v
        · rw [h, new, newCost]
          exact le_of_lt (worse x hx h)
        · rw [old h]
          exact le
      · rw [old (ne_of_done h)]
        exact lt h
  case entries =>
    have perm := (Heap.push_perm PQNode.cost s.pq ⟨v, L + w u v, 0⟩).map
      fun x : PQNode => (x.node, x.cost)
    rw [Search.improve, perm.nodup_iff, List.map_cons, List.nodup_cons]
    refine ⟨fun hmem => ?_, inv.entries⟩
    obtain ⟨x, hx, hxv⟩ := List.mem_map.mp hmem
    obtain ⟨h1, h2⟩ := Prod.mk.inj hxv
    exact absurd h2 (ne_of_gt (worse x hx h1))
  case waiting =>
    apply Search.improve_forall huName
      (Q := fun x p => x ∈ done ∨ x ∈ [] ∨
        ∃ y ∈ (s.improve u v _ _).pq, y.node = x ∧ y.cost = cost w p)
    · rw [newCost]
      exact .inr (.inr ⟨_, Search.mem_improve.mpr (.inl rfl), rfl, rfl⟩)
    · intro x _ hx
      rcases inv.waiting x hx with hd | hc | ⟨y, hy, e1, e2⟩
      · exact .inl hd
      · exact .inr (.inl hc)
      · exact .inr (.inr ⟨y, Search.mem_improve.mpr (.inr hy), e1, e2⟩)
  case relaxed =>
    intro u' hu' e' he' hf' ht
    rw [old (ne_of_done hu'), Search.improve_reached huName]
    by_cases h : e'.destinationIp = v
    · refine ⟨.inl h, ?_⟩
      rw [h, new, newCost]
      by_cases same : e' = e
      · subst same
        rw [one u' he', hL]
      · obtain ⟨r', le'⟩ := inv.relaxed u' hu' e' he' hf' (by simp [same, ht])
        rw [h] at r' le'
        rw [inv.dist v r', WithTop.coe_lt_coe] at better
        linarith
    · rw [old h]
      have same : e' ≠ e := by rintro rfl; exact h hv
      obtain ⟨r', le'⟩ := inv.relaxed u' hu' e' he' hf' (by simp [same, ht])
      exact ⟨.inr r', le'⟩
  case notDest => exact inv.notDest
  case skipped => exact fun h => absurd rfl h

/-- Relaxing the edges of a node that has just been popped. -/
theorem Search.Inv.relaxAll (sane : Sane ks edges g) (hw : w = Routing.along edges ks.weight)
    (hl : l = Routing.along edges Edge.latency) {u : String} (huName : u ≠ "") (es : List Edge)
    (hes : ∀ e ∈ es, e ∈ outgoing g u)
    (inv : Inv g forbidden start dest w l s done [] P L es) (hu : u ∈ done)
    (hL : L = cost w (P u)) :
    ∃ P', Inv g forbidden start dest w l (es.foldl (ks.relax u L forbidden (fun _ => false)) s)
        done [] P' L [] ∧
      (es.foldl (ks.relax u L forbidden (fun _ => false)) s).pq.length ≤ s.pq.length + es.length := by
  induction es generalizing s P with
  | nil => exact ⟨P, inv, le_refl _⟩
  | cons e es ih =>
    have he := hes e List.mem_cons_self
    have one : ∀ u', e ∈ outgoing g u' → u' = u := fun u' h =>
      (sane.mem h).2.symm.trans (sane.mem he).2
    have hes' : ∀ e ∈ es, e ∈ outgoing g u := fun e h => hes e (List.mem_cons_of_mem _ h)
    have weight : ks.weight e = w u e.destinationIp := by rw [hw, sane.along ks.weight he]
    have latency : e.latency = l u e.destinationIp := by rw [hl, sane.along Edge.latency he]
    rw [List.foldl_cons]
    by_cases hf : forbidden e.destinationIp = true
    · rw [relax_eq, if_pos hf]
      obtain ⟨P', inv', len⟩ := ih hes' (inv.skip one (fun h => by simp [hf] at h)) hL
      exact ⟨P', inv', by simp; omega⟩
    · rw [relax_eq, if_neg hf, weight, latency]
      have hf : forbidden e.destinationIp = false := by simpa using hf
      by_cases better : ((L + w u e.destinationIp : ℚ) : WithTop ℚ) < s.dist e.destinationIp
      · have hu' : e.destinationIp ≠ u := by
          intro h
          rw [h, inv.dist u (inv.reached u hu), WithTop.coe_lt_coe, hL] at better
          have := along_nonneg sane.nonneg u u
          rw [← hw] at this
          linarith
        have inv₁ := inv.improve rfl one he hu huName hL
          (fun a b h => hw ▸ SearchArc.nonneg sane a b h) hf better
        rw [if_pos better]
        obtain ⟨P', inv', len⟩ := ih hes' inv₁ (by rw [Function.update_of_ne hu'.symm]; exact hL)
        have grow := (Heap.push_perm PQNode.cost s.pq
          ⟨e.destinationIp, L + w u e.destinationIp, 0⟩).length_eq
        refine ⟨P', inv', le_trans len ?_⟩
        rw [List.length_cons] at grow ⊢
        rw [show (s.improve u e.destinationIp _ _).pq.length = _ from grow]
        omega
      · rw [if_neg better]
        have known : s.Reached start e.destinationIp := by
          rw [inv.reached_iff (hasNode_of_mem he)]
          intro h
          rw [h] at better
          exact better (WithTop.coe_lt_top _)
        rw [inv.dist _ known, WithTop.coe_lt_coe, not_lt, hL] at better
        obtain ⟨P', inv', len⟩ := ih hes' (inv.skip one (fun _ => ⟨known, better⟩)) hL
        exact ⟨P', inv', by simp; omega⟩

theorem Search.Inv.initial (g : Adjacency) (forbidden : String → Bool) (start dest : String)
    (w l : String → String → ℚ) :
    Search.Inv g forbidden start dest w l (.start g start) [] [] (fun _ => [start]) 0 [] := by
  have single : (Search.start g start).pq = [⟨start, 0, 0⟩] := Heap.push_nil _ _
  have only : ∀ v, (Search.start g start).Reached start v → v = start := by
    intro v hv
    rcases hv with rfl | hv
    · rfl
    · exact absurd rfl hv
  constructor
  · intro i hi
    obtain rfl : i = 0 := by simp [single] at hi; omega
    exact Heap.Le.refl _ _ _
  · exact ⟨rfl, rfl⟩
  · intro v hv
    rw [only v hv]
    exact IsPath.singleton _ start
  · intro v hv
    rw [only v hv]
    simp [Search.start]
  · intro v hv
    rw [only v hv]
    simp [Search.start]
  · simp
  · intro v hv
    exact absurd rfl hv
  · intro v hv
    have : v ≠ start := fun h => hv (.inl h)
    simp [Search.start, this]
  · simp
  · simp
  · simp [single]
  · simp [single, Search.Reached]
  · simp [single]
  · intro v hv
    rw [only v hv]
    exact .inr (.inr ⟨⟨start, 0, 0⟩, by simp [single], rfl, rfl⟩)
  · simp
  · simp
  · simp

/-- Popping an entry raises the floor to its cost. -/
theorem Search.Inv.pop (inv : Inv g forbidden start dest w l s done cut P L []) {u : PQNode}
    {pq : PriorityQueue} (h : Heap.pop byCost s.pq = some (u, pq)) :
    s.pq.Perm (u :: pq) ∧ Heap.Ordered PQNode.cost pq ∧ (∀ y ∈ s.pq, u.cost ≤ y.cost) ∧
      s.Reached start u.node ∧ cost w (P u.node) ≤ u.cost ∧ L ≤ u.cost ∧
      (u.node ∈ done → cost w (P u.node) < u.cost) := by
  have perm := Heap.pop_perm h
  obtain ⟨order, least⟩ := Heap.pop_ordered inv.heap h
  have hu : u ∈ s.pq := perm.mem_iff.mpr List.mem_cons_self
  obtain ⟨r, le, lt⟩ := inv.queued u hu
  refine ⟨perm, order, fun y hy => ?_, r, le, inv.above u hu, lt⟩
  rcases List.mem_cons.mp (perm.mem_iff.mp hy) with rfl | hy
  · exact le_refl _
  · exact least y hy

/-- The invariant without the popped entry, when its node is accounted for. -/
theorem Search.Inv.popped (inv : Inv g forbidden start dest w l s done cut P L []) {u : PQNode}
    {pq : PriorityQueue} (h : Heap.pop byCost s.pq = some (u, pq)) {cut' : List String}
    (hcut : ∀ v ∈ cut, v ∈ cut') (account : u.cost = cost w (P u.node) → u.node ∈ cut')
    (hdest : dest ∉ cut') (hskip : cut' ≠ [] → s.dist dest ≠ ⊤) :
    Inv g forbidden start dest w l { s with pq := pq } done cut' P u.cost [] := by
  obtain ⟨perm, order, least, -, -, hL, -⟩ := inv.pop h
  have mem {x : PQNode} (hx : x ∈ pq) : x ∈ s.pq := perm.mem_iff.mpr (List.mem_cons_of_mem u hx)
  refine { inv with
    heap := order
    floor := fun v hv => le_trans (inv.floor v hv) hL
    above := fun x hx => least x (mem hx)
    queued := fun x hx => inv.queued x (mem hx)
    entries := ?_
    waiting := fun v hv => ?_
    notDest := ⟨inv.notDest.1, hdest⟩
    skipped := hskip }
  · have := ((perm.map fun x : PQNode => (x.node, x.cost)).nodup_iff.mp inv.entries)
    exact (List.nodup_cons.mp this).2
  · rcases inv.waiting v hv with hd | hc | ⟨x, hx, rfl, hc⟩
    · exact .inl hd
    · exact .inr (.inl (hcut v hc))
    · rcases List.mem_cons.mp (perm.mem_iff.mp hx) with rfl | hx
      · exact .inr (.inl (account hc))
      · exact .inr (.inr ⟨x, hx, rfl, hc⟩)

theorem Search.Inv.named (sane : Sane ks edges g) (hstart : start ≠ "")
    (inv : Inv g forbidden start dest w l s done cut P L todo) {v : String}
    (hv : s.Reached start v) : v ≠ "" := by
  rcases (inv.path v hv).mem_targets v (List.mem_of_getLast? (inv.path v hv).last) with
    hs | ⟨y, e, he, rfl, -⟩
  · rw [hs]; exact hstart
  · exact (sane.named e (sane.mem he).1).2

/-- The popped node becomes `done`, and all its edges are still to be relaxed. -/
theorem Search.Inv.settled (inv : Inv g forbidden start dest w l s done [] P L []) {u : PQNode}
    {pq : PriorityQueue} (h : Heap.pop byCost s.pq = some (u, pq))
    (current : u.cost = cost w (P u.node)) (hd : u.node ≠ dest) :
    Inv g forbidden start dest w l { s with pq := pq } (u.node :: done) [] P u.cost
      (outgoing g u.node) := by
  obtain ⟨perm, order, least, ru, -, hL, -⟩ := inv.pop h
  have mem {x : PQNode} (hx : x ∈ pq) : x ∈ s.pq := perm.mem_iff.mpr (List.mem_cons_of_mem u hx)
  have distinct := (perm.map fun x : PQNode => (x.node, x.cost)).nodup_iff.mp inv.entries
  rw [List.map_cons, List.nodup_cons] at distinct
  refine { inv with
    heap := order
    inner := fun v hv x hx => List.mem_cons_of_mem _ (inv.inner v hv x hx)
    link := fun v hv => ⟨(inv.link v hv).1, List.mem_cons_of_mem _ (inv.link v hv).2⟩
    reached := ?reached
    floor := ?floor
    above := fun x hx => least x (mem hx)
    queued := ?queued
    entries := distinct.2
    waiting := ?waiting
    relaxed := ?relaxed
    notDest := ?notDest
    skipped := fun h => absurd rfl h }
  case reached =>
    intro v hv
    rcases List.mem_cons.mp hv with rfl | hv
    · exact ru
    · exact inv.reached v hv
  case floor =>
    intro v hv
    rcases List.mem_cons.mp hv with rfl | hv
    · exact le_of_eq current.symm
    · exact le_trans (inv.floor v hv) hL
  case queued =>
    intro x hx
    obtain ⟨rx, lex, ltx⟩ := inv.queued x (mem hx)
    refine ⟨rx, lex, fun hxd => ?_⟩
    rcases List.mem_cons.mp hxd with same | hxd
    · -- no second entry of the node has the same cost
      rw [same] at lex ⊢
      refine lt_of_le_of_ne lex (fun eq => distinct.1 ?_)
      exact List.mem_map.mpr ⟨x, hx, by rw [same, current, eq]⟩
    · exact ltx hxd
  case waiting =>
    intro v hv
    rcases inv.waiting v hv with hd' | hc | ⟨x, hx, rfl, hc⟩
    · exact .inl (List.mem_cons_of_mem _ hd')
    · cases hc
    · rcases List.mem_cons.mp (perm.mem_iff.mp hx) with rfl | hx
      · exact .inl List.mem_cons_self
      · exact .inr (.inr ⟨x, hx, rfl, hc⟩)
  case relaxed =>
    intro v hv e he hf ht
    rcases List.mem_cons.mp hv with rfl | hv
    · exact absurd he ht
    · exact inv.relaxed v hv e he hf List.not_mem_nil
  case notDest => simp [Ne.symm hd, inv.notDest.1]

/-- Everything one turn of the loop can do. -/
theorem Search.Inv.turn (sane : Sane ks edges g) (hw : w = Routing.along edges ks.weight)
    (hl : l = Routing.along edges Edge.latency) (hstart : start ≠ "")
    (inv : Inv g forbidden start dest w l s done cut P L []) :
    (ks.turn dest g forbidden (fun _ => false) s = .exhausted ∧ s.pq = []) ∨
    (∃ u pq, ks.turn dest g forbidden (fun _ => false) s = .stale { s with pq := pq } ∧
      s.pq.length = pq.length + 1 ∧
      Inv g forbidden start dest w l { s with pq := pq } done cut P u []) ∨
    (∃ pq, ks.turn dest g forbidden (fun _ => false) s =
        .reached { s with pq := pq } (cost w (P dest)) ∧
      s.Reached start dest ∧ ∀ y ∈ s.pq, cost w (P dest) ≤ y.cost) ∨
    (∃ u pq, ks.turn dest g forbidden (fun _ => false) s = .cutOff { s with pq := pq } u ∧
      s.pq.length = pq.length + 1 ∧ s.dist dest ≠ ⊤ ∧ s.Reached start u.node ∧
      u.cost = cost w (P u.node) ∧
      Inv g forbidden start dest w l { s with pq := pq } done (u.node :: cut) P u.cost []) ∨
    (∃ u s' P', ks.turn dest g forbidden (fun _ => false) s = .relaxed s' u ∧ cut = [] ∧
      s.dist dest = ⊤ ∧ (∀ y ∈ s.pq, u.cost ≤ y.cost) ∧ u.node ∉ done ∧
      s'.pq.length + 1 ≤ s.pq.length + (outgoing g u.node).length ∧
      Inv g forbidden start dest w l s' (u.node :: done) [] P' u.cost []) := by
  unfold KShortestSolver.turn
  cases h : Heap.pop byCost s.pq with
  | none => exact .inl ⟨rfl, Heap.pop_eq_none h⟩
  | some popped =>
    obtain ⟨u, pq⟩ := popped
    obtain ⟨perm, order, least, ru, le, hL, lt⟩ := inv.pop h
    have len : s.pq.length = pq.length + 1 := perm.length_eq
    simp only
    by_cases stale : s.dist u.node < (u.cost : WithTop ℚ)
    · right; left
      rw [if_pos stale]
      refine ⟨u.cost, pq, rfl, len, inv.popped h (fun _ hv => hv) (fun eq => ?_)
        inv.notDest.2 inv.skipped⟩
      rw [inv.dist _ ru, WithTop.coe_lt_coe, ← eq] at stale
      exact absurd stale (lt_irrefl _)
    · rw [if_neg stale]
      have exact_ : u.cost = cost w (P u.node) := by
        rw [inv.dist _ ru, WithTop.coe_lt_coe, not_lt] at stale
        exact le_antisymm stale le
      by_cases hd : u.node = dest
      · right; right; left
        rw [if_pos hd]
        refine ⟨pq, by rw [exact_, hd], hd ▸ ru, fun y hy => ?_⟩
        rw [← hd, ← exact_]
        exact least y hy
      · rw [if_neg hd]
        by_cases found : s.dist dest ≠ ⊤
        · right; right; right; left
          rw [if_pos found]
          refine ⟨u, pq, rfl, len, found, ru, exact_, inv.popped h
            (fun _ hv => List.mem_cons_of_mem _ hv) (fun _ => List.mem_cons_self) ?_
            (fun _ => found)⟩
          simp [Ne.symm hd, inv.notDest.2]
        · right; right; right; right
          rw [if_neg found]
          rw [not_not] at found
          obtain rfl : cut = [] := by
            by_contra hc
            exact inv.skipped hc found
          have fresh : u.node ∉ done := fun hu => absurd exact_ (ne_of_gt (lt hu))
          have named := inv.named sane hstart ru
          have mid := inv.settled h exact_ hd
          obtain ⟨P', inv', grow⟩ := mid.relaxAll sane hw hl named (outgoing g u.node)
            (fun _ h => h) List.mem_cons_self exact_
          exact ⟨u, _, P', rfl, rfl, found, least, fresh, by simp only at grow; omega, inv'⟩

/-! ## Running the loop -/

/-- The state the loop goes on from after a turn. -/
def KShortestSolver.Turn.next : KShortestSolver.Turn → Option Search
  | .stale s | .cutOff s _ | .relaxed s _ => some s
  | .exhausted | .reached _ _ => none

/-- The states the loop passes through. -/
inductive Visits (ks : KShortestSolver) (dest : String) (g : Adjacency)
    (forbidden : String → Bool) : Search → Search → Prop
  | here (s : Search) : Visits ks dest g forbidden s s
  | later {s s' t : Search} :
      (ks.turn dest g forbidden (fun _ => false) s).next = some s' →
      Visits ks dest g forbidden s' t → Visits ks dest g forbidden s t

/-- The next turn leaves the neighbours of a node alone although the destination
is cheaper to reach through it than by the way discovered. -/
def SkipsCheaper (ks : KShortestSolver) (edges : List Edge) (dest : String) (g : Adjacency)
    (forbidden : String → Bool) (s : Search) : Prop :=
  ∃ s' u q, ks.turn dest g forbidden (fun _ => false) s = .cutOff s' u ∧
    IsWalk (SearchArc g forbidden) u.node dest q ∧
    ((u.cost + cost (along edges ks.weight) q : ℚ) : WithTop ℚ) < s.dist dest

/-- Some turn of the search from `start` skips a cheaper way. -/
def CutsShort (ks : KShortestSolver) (edges : List Edge) (start dest : String) (g : Adjacency)
    (forbidden : String → Bool) : Prop :=
  ∃ s, Visits ks dest g forbidden (.start g start) s ∧ SkipsCheaper ks edges dest g forbidden s

/-- Entries still queued and edges still to be relaxed. -/
def Search.work (edges : List Edge) (s : Search) (done : List String) : Nat :=
  s.pq.length + edges.countP fun e => decide (e.sourceIp ∉ done)

theorem countP_done (edges : List Edge) (done : List String) {u : String} (hu : u ∉ done) :
    edges.countP (fun e => decide (e.sourceIp ∉ u :: done)) +
      (edges.filter fun e => e.sourceIp == u).length =
    edges.countP fun e => decide (e.sourceIp ∉ done) := by
  induction edges with
  | nil => rfl
  | cons e es ih =>
    by_cases h : e.sourceIp = u
    · subst h; simp [hu] at ih ⊢; omega
    · by_cases hd : e.sourceIp ∈ done <;> simp [h, hd] at ih ⊢ <;> omega

/-- Every walk from a reached node to the destination costs at least as much as
the way discovered, when the nodes skipped so far do. -/
theorem Search.Inv.least (inv : Inv g forbidden start dest w l s done cut P L [])
    (hw : ∀ a b, SearchArc g forbidden a b → 0 ≤ w a b)
    (top : ∀ y ∈ s.pq, cost w (P dest) ≤ y.cost)
    (harmless : ∀ v ∈ cut, ∀ q, IsWalk (SearchArc g forbidden) v dest q →
      cost w (P dest) ≤ cost w (P v) + cost w q)
    {v : String} {q : List String} (rv : s.Reached start v)
    (hq : IsWalk (SearchArc g forbidden) v dest q) :
    cost w (P dest) ≤ cost w (P v) + cost w q := by
  induction q generalizing v with
  | nil => exact absurd rfl hq.ne_nil
  | cons a q ih =>
    obtain rfl : a = v := by simpa using hq.first
    rcases inv.waiting a rv with hd | hc | ⟨x, hx, -, hxc⟩
    · cases q with
      | nil =>
        obtain rfl : a = dest := by simpa using hq.last
        exact absurd hd inv.notDest.1
      | cons b q =>
        obtain ⟨⟨e, he, rfl, hf⟩, chain⟩ := List.isChain_cons_cons.mp hq.chain
        obtain ⟨rb, le⟩ := inv.relaxed a hd e he hf (by simp)
        have := ih rb ⟨rfl, by simpa using hq.last, chain⟩
        rw [Walk.cost_cons_cons]
        linarith
    · exact harmless a hc _ hq
    · have h1 := top x hx
      have h2 := Walk.cost_nonneg hw hq.chain
      linarith

theorem path_length_le {p : List String} {a b : String} (hp : IsPath (Arc edges) a b p) :
    p.length ≤ edges.length + 1 := by
  have sources : ∀ (p : List String), p.IsChain (Arc edges) →
      ∀ x ∈ p.dropLast, x ∈ edges.map Edge.sourceIp := by
    intro p
    induction p with
    | nil => simp
    | cons a p ih =>
      intro chain x hx
      cases p with
      | nil => simp at hx
      | cons b p =>
        obtain ⟨⟨e, he, rfl, -⟩, rest⟩ := List.isChain_cons_cons.mp chain
        rw [List.dropLast_cons_cons, List.mem_cons] at hx
        rcases hx with rfl | hx
        · exact List.mem_map_of_mem he
        · exact ih rest x hx
  have sub : p.dropLast.Subperm (edges.map Edge.sourceIp) :=
    List.Nodup.subperm (hp.nodup.sublist (List.dropLast_sublist p)) (sources p hp.chain)
  have := sub.length_le
  rw [List.length_dropLast, List.length_map] at this
  omega

theorem Search.Inv.length_le (sane : Sane ks edges g)
    (inv : Inv g forbidden start dest w l s done cut P L todo) {v : String}
    (hv : s.Reached start v) : (P v).length ≤ edges.length + 1 :=
  path_length_le ((inv.path v hv).mono fun _ _ h => h.arc sane)

/-- Walking back along `prev` rebuilds the path of the tree. -/
theorem Search.Inv.buildPath (sane : Sane ks edges g) (hstart : start ≠ "")
    (inv : Inv g forbidden start dest w l s done cut P L todo) (fuel : Nat) {v : String}
    (hv : s.Reached start v) (acc : List String) (hf : (P v).length < fuel) :
    Routing.buildPath s.prev fuel v acc = some (P v ++ acc) := by
  induction fuel generalizing v acc with
  | zero => omega
  | succ fuel ih =>
    rw [Routing.buildPath, if_neg (inv.named sane hstart hv)]
    by_cases hp : s.prev v = ""
    · have hvs : v = start := hv.resolve_right (not_not.mpr hp)
      have hPv : P v = [v] := by rw [hvs]; exact inv.root.1
      rw [hPv] at hf ⊢
      obtain ⟨n, rfl⟩ : ∃ n, fuel = n + 1 := ⟨fuel - 1, by simp at hf; omega⟩
      simp [hp, Routing.buildPath]
    · obtain ⟨eq, mem⟩ := inv.link v hp
      rw [eq, List.length_append, List.length_singleton] at hf
      rw [ih (inv.reached _ mem) (v :: acc) (by omega), eq]
      simp

theorem nodup_no_consecutive {p : List String} (h : p.Nodup) : hasConsecutiveDuplicates p = false := by
  induction p with
  | nil => rfl
  | cons a p ih =>
    cases p with
    | nil => rfl
    | cons b p =>
      rw [List.nodup_cons] at h
      have : a ≠ b := by rintro rfl; exact h.1 List.mem_cons_self
      simp [hasConsecutiveDuplicates, this, ih h.2]

/-- A turn after which the loop goes on keeps the invariant and leaves less work. -/
theorem Search.Inv.next (sane : Sane ks edges g) (hw : w = Routing.along edges ks.weight)
    (hl : l = Routing.along edges Edge.latency) (hstart : start ≠ "") {s' : Search}
    (inv : Inv g forbidden start dest w l s done cut P L [])
    (hnext : (ks.turn dest g forbidden (fun _ => false) s).next = some s') :
    ∃ done' cut' P' L', Inv g forbidden start dest w l s' done' cut' P' L' [] ∧
      s'.work edges done' < s.work edges done := by
  rcases inv.turn sane hw hl hstart with
    ⟨eq, -⟩ | ⟨u, pq, eq, len, inv'⟩ | ⟨pq, eq, -, -⟩ | ⟨u, pq, eq, len, -, -, -, inv'⟩ |
    ⟨u, s'', P', eq, rfl, -, -, new, grow, inv'⟩
  · rw [eq] at hnext; cases hnext
  · rw [eq] at hnext
    obtain rfl := Option.some.inj hnext
    exact ⟨done, cut, P, u, inv', by simp only [Search.work]; omega⟩
  · rw [eq] at hnext; cases hnext
  · rw [eq] at hnext
    obtain rfl := Option.some.inj hnext
    exact ⟨done, u.node :: cut, P, u.cost, inv', by simp only [Search.work]; omega⟩
  · rw [eq] at hnext
    obtain rfl := Option.some.inj hnext
    have edgesLeft := countP_done edges done new
    have out := (sane.keyed u.node).length_le
    exact ⟨u.node :: done, [], P', u.cost, inv', by simp only [Search.work]; omega⟩

theorem searchLoop_of_next {pathFuel fuel : Nat} {s' : Search}
    (hnext : (ks.turn dest g forbidden (fun _ => false) s).next = some s') :
    ks.searchLoop start dest g forbidden (fun _ => false) pathFuel (fuel + 1) s =
      ks.searchLoop start dest g forbidden (fun _ => false) pathFuel fuel s' := by
  rw [KShortestSolver.searchLoop]
  cases eq : ks.turn dest g forbidden (fun _ => false) s with
  | stale | cutOff | relaxed =>
    rw [eq] at hnext
    obtain rfl := Option.some.inj hnext
    rfl
  | exhausted | reached =>
    rw [eq] at hnext
    cases hnext

/-- The node at which a turn cuts the search off was reached, as the destination was. -/
theorem Search.Inv.of_cutOff (sane : Sane ks edges g) (hw : w = Routing.along edges ks.weight)
    (hl : l = Routing.along edges Edge.latency) (hstart : start ≠ "") {s' : Search} {u : PQNode}
    (inv : Inv g forbidden start dest w l s done cut P L [])
    (eq : ks.turn dest g forbidden (fun _ => false) s = .cutOff s' u) :
    s.dist dest ≠ ⊤ ∧ s.Reached start u.node ∧ u.cost = cost w (P u.node) := by
  rcases inv.turn sane hw hl hstart with
    ⟨eq', -⟩ | ⟨u', pq, eq', -, -⟩ | ⟨pq, eq', -, -⟩ | ⟨u', pq, eq', -, found, ru, hu, -⟩ |
    ⟨u', s'', P', eq', -⟩
  · rw [eq] at eq'; cases eq'
  · rw [eq] at eq'; cases eq'
  · rw [eq] at eq'; cases eq'
  · rw [eq] at eq'
    injection eq' with _ same
    subst same
    exact ⟨found, ru, hu⟩
  · rw [eq] at eq'; cases eq'

/-- The way to a node that was reached, and on from there. -/
theorem Search.Inv.walk_through (inv : Inv g forbidden start dest w l s done cut P L [])
    {v : String} (rv : s.Reached start v) {q : List String}
    (hq : IsWalk (SearchArc g forbidden) v dest q) :
    ∃ q', IsWalk (SearchArc g forbidden) start dest q' ∧
      cost w q' = cost w (P v) + cost w q := by
  obtain ⟨p, hp⟩ := List.getLast?_eq_some_iff.mp (inv.path v rv).last
  obtain ⟨q', rfl⟩ := List.head?_eq_some_iff.mp hq.first
  refine ⟨p ++ v :: q', Walk.isWalk_append.mpr ⟨hp ▸ (inv.path v rv).toIsWalk, hq⟩, ?_⟩
  rw [hp, Walk.cost_append]

/-- What the loop answers from a state that satisfies the invariant. If the
destination is already discovered, the cost answered is its distance. -/
theorem Search.Inv.searchLoop (sane : Sane ks edges g) (hw : w = Routing.along edges ks.weight)
    (hl : l = Routing.along edges Edge.latency) (hstart : start ≠ "") {pathFuel : Nat}
    (hpath : edges.length + 2 ≤ pathFuel) (fuel : Nat)
    (inv : Inv g forbidden start dest w l s done cut P L []) (hfuel : s.work edges done < fuel) :
    (∃ err, ks.searchLoop start dest g forbidden (fun _ => false) pathFuel fuel s =
        some (.error err) ∧ ∀ p, ¬ IsWalk (SearchArc g forbidden) start dest p) ∨
    (∃ path, ks.searchLoop start dest g forbidden (fun _ => false) pathFuel fuel s =
        some (.ok path) ∧ IsPath (SearchArc g forbidden) start dest path.hops ∧
      path.cost = cost w path.hops ∧ path.rawRTT = (cost l path.hops : ℚ) ∧
      (s.Reached start dest → path.cost = cost w (P dest))) := by
  induction fuel generalizing s done cut P L with
  | zero => omega
  | succ fuel ih =>
    rw [KShortestSolver.searchLoop]
    rcases inv.turn sane hw hl hstart with
      ⟨eq, empty⟩ | ⟨u, pq, eq, len, inv'⟩ | ⟨pq, eq, hr, -⟩ |
      ⟨u, pq, eq, len, found, -, -, inv'⟩ | ⟨u, s', P', eq, rfl, far, -, new, grow, inv'⟩
    · left
      rw [eq]
      exact ⟨_, rfl, inv.no_walk empty⟩
    · rw [eq]
      exact ih inv' (by simp only [Search.work] at hfuel ⊢; omega)
    · right
      rw [eq]
      have long := inv.length_le sane hr
      have built := inv.buildPath sane hstart pathFuel hr [] (by omega)
      have nodup := nodup_no_consecutive (inv.path dest hr).nodup
      refine ⟨⟨P dest, cost w (P dest), s.rawRTT dest⟩, ?_, inv.path dest hr, rfl,
        inv.rawRTT dest hr, fun _ => rfl⟩
      simp [built, nodup]
    · rw [eq]
      exact ih inv' (by simp only [Search.work] at hfuel ⊢; omega)
    · rw [eq]
      have edgesLeft := countP_done edges done new
      have out := (sane.keyed u.node).length_le
      rcases ih inv' (by simp only [Search.work] at hfuel ⊢; omega) with h | ⟨path, h1, h2, h3, h4, -⟩
      · exact .inl h
      · refine .inr ⟨path, h1, h2, h3, h4, fun hr => ?_⟩
        rw [inv.dist dest hr] at far
        exact absurd far WithTop.coe_ne_top

/-- A search none of whose turns skips a cheaper way answers a cheapest path. -/
theorem Search.Inv.searchLoop_least (sane : Sane ks edges g)
    (hw : w = Routing.along edges ks.weight) (hl : l = Routing.along edges Edge.latency)
    (hstart : start ≠ "") {pathFuel fuel : Nat} {path : Path}
    (inv : Inv g forbidden start dest w l s done cut P L [])
    (harmless : ∀ v ∈ cut, ∀ q, IsWalk (SearchArc g forbidden) v dest q →
      cost w (P dest) ≤ cost w (P v) + cost w q)
    (good : ∀ t, Visits ks dest g forbidden s t → ¬ SkipsCheaper ks edges dest g forbidden t)
    (run : ks.searchLoop start dest g forbidden (fun _ => false) pathFuel fuel s = some (.ok path))
    {q : List String} (hq : IsWalk (SearchArc g forbidden) start dest q) :
    path.cost ≤ cost w q := by
  have hpos : ∀ a b, SearchArc g forbidden a b → 0 ≤ w a b :=
    fun a b h => hw ▸ SearchArc.nonneg sane a b h
  induction fuel generalizing s done cut P L with
  | zero => simp [KShortestSolver.searchLoop] at run
  | succ fuel ih =>
    rw [KShortestSolver.searchLoop] at run
    rcases inv.turn sane hw hl hstart with
      ⟨eq, empty⟩ | ⟨u, pq, eq, len, inv'⟩ | ⟨pq, eq, hr, top⟩ |
      ⟨u, pq, eq, len, found, ru, hu, inv'⟩ | ⟨u, s', P', eq, rfl, far, -, new, grow, inv'⟩
    · simp [eq] at run
    · rw [eq] at run
      exact ih inv' harmless (fun t ht => good t (.later (by rw [eq]; rfl) ht)) run
    · rw [eq] at run
      simp only [Option.bind_eq_bind, Option.bind_eq_some_iff, Option.some.injEq,
        Except.ok.injEq] at run
      obtain ⟨p, -, rfl⟩ := run
      have := inv.least hpos top harmless (.inl rfl) hq
      simpa [inv.root.1] using this
    · rw [eq] at run
      refine ih inv' (fun v hv q' hq' => ?_) (fun t ht => good t (.later (by rw [eq]; rfl) ht)) run
      rcases List.mem_cons.mp hv with rfl | hv
      · by_contra hlt
        refine good s (.here s) ⟨_, u, q', eq, hq', ?_⟩
        rw [inv.dist dest (inv.reached_of_found found ru hq'), ← hw, WithTop.coe_lt_coe, hu]
        exact not_le.mp hlt
      · exact harmless v hv q' hq'
    · rw [eq] at run
      exact ih inv' (by simp) (fun t ht => good t (.later (by rw [eq]; rfl) ht)) run

/-- A search one of whose turns skips a cheaper way answers a path that is not a
cheapest one. -/
theorem Search.Inv.searchLoop_not_least (sane : Sane ks edges g)
    (hw : w = Routing.along edges ks.weight) (hl : l = Routing.along edges Edge.latency)
    (hstart : start ≠ "") {pathFuel : Nat} (hpath : edges.length + 2 ≤ pathFuel) (fuel : Nat)
    {path : Path} {t : Search} (hfuel : s.work edges done < fuel)
    (inv : Inv g forbidden start dest w l s done cut P L [])
    (visit : Visits ks dest g forbidden s t) (bad : SkipsCheaper ks edges dest g forbidden t)
    (run : ks.searchLoop start dest g forbidden (fun _ => false) pathFuel fuel s = some (.ok path)) :
    ∃ q, IsWalk (SearchArc g forbidden) start dest q ∧ cost w q < path.cost := by
  induction visit generalizing done cut P L fuel with
  | here s =>
    obtain ⟨s', u, q, eq, hq, less⟩ := bad
    obtain ⟨found, ru, hu⟩ := inv.of_cutOff sane hw hl hstart eq
    rcases inv.searchLoop sane hw hl hstart hpath fuel hfuel with
      ⟨err, h, -⟩ | ⟨p, h, hp, hc, -, known⟩
    · rw [run] at h; cases h
    · rw [run] at h
      obtain rfl : path = p := by simpa using h
      have hr := inv.reached_of_found found (.inl rfl) hp.toIsWalk
      obtain ⟨q', walk, through⟩ := inv.walk_through ru hq
      refine ⟨q', walk, ?_⟩
      rw [inv.dist dest hr, ← hw, WithTop.coe_lt_coe, hu] at less
      rw [known hr, through]
      exact less
  | later hnext _ ih =>
    cases fuel with
    | zero => omega
    | succ fuel =>
      obtain ⟨done', cut', P', L', inv', less⟩ := inv.next sane hw hl hstart hnext
      rw [searchLoop_of_next hnext] at run
      exact ih fuel (by omega) inv' bad run

theorem Search.start_work (edges : List Edge) (g : Adjacency) (start : String) :
    (Search.start g start).work edges [] ≤ edges.length + 1 := by
  simp [Search.work, Search.start]
  omega

/-- Enough fuel gives an answer; an error means that no walk leads to the
destination, and a path answered is simple and has its exact cost and latency. -/
theorem findShortestPath_spec (sane : Sane ks edges g) (forbidden : String → Bool)
    (hstart : start ≠ "") (dest : String) {fuel : Nat} (hfuel : edges.length + 2 ≤ fuel) :
    (∃ err, ks.findShortestPath start dest g forbidden (fun _ => false) fuel = some (.error err) ∧
      ∀ p, ¬ IsWalk (SearchArc g forbidden) start dest p) ∨
    (∃ path, ks.findShortestPath start dest g forbidden (fun _ => false) fuel = some (.ok path) ∧
      IsPath (SearchArc g forbidden) start dest path.hops ∧
      path.cost = cost (Routing.along edges ks.weight) path.hops ∧
      path.rawRTT = (cost (Routing.along edges Edge.latency) path.hops : ℚ)) := by
  have work := Search.start_work edges g start
  rcases (Search.Inv.initial g forbidden start dest _ _).searchLoop sane rfl rfl hstart hfuel fuel
    (by omega) with h | ⟨path, h1, h2, h3, h4, -⟩
  · exact .inl h
  · exact .inr ⟨path, h1, h2, h3, h4⟩

/-- The path answered is a cheapest one exactly when no turn skips a cheaper way. -/
theorem findShortestPath_least (sane : Sane ks edges g) (forbidden : String → Bool)
    (hstart : start ≠ "") {fuel : Nat} (hfuel : edges.length + 2 ≤ fuel) {path : Path}
    (run : ks.findShortestPath start dest g forbidden (fun _ => false) fuel = some (.ok path)) :
    (∀ q, IsWalk (SearchArc g forbidden) start dest q →
      path.cost ≤ cost (Routing.along edges ks.weight) q) ↔
    ¬ CutsShort ks edges start dest g forbidden := by
  have work := Search.start_work edges g start
  have inv := Search.Inv.initial g forbidden start dest (Routing.along edges ks.weight)
    (Routing.along edges Edge.latency)
  constructor
  · rintro least ⟨t, visit, bad⟩
    obtain ⟨q, hq, less⟩ := inv.searchLoop_not_least sane rfl rfl hstart hfuel fuel (by omega)
      visit bad run
    exact absurd (least q hq) (not_le.mpr less)
  · intro good q hq
    exact inv.searchLoop_least sane rfl rfl hstart (by simp)
      (fun t visit bad => good ⟨t, visit, bad⟩) run hq

theorem Search.Inv.visits (sane : Sane ks edges g) (hw : w = Routing.along edges ks.weight)
    (hl : l = Routing.along edges Edge.latency) (hstart : start ≠ "") {t : Search}
    (inv : Inv g forbidden start dest w l s done cut P L [])
    (visit : Visits ks dest g forbidden s t) :
    ∃ done cut P L, Inv g forbidden start dest w l t done cut P L [] := by
  induction visit generalizing done cut P L with
  | here s => exact ⟨done, cut, P, L, inv⟩
  | later hnext _ ih =>
    obtain ⟨done', cut', P', L', inv', -⟩ := inv.next sane hw hl hstart hnext
    exact ih inv'

/-- A search that is cut short has a destination to reach. -/
theorem CutsShort.walk (sane : Sane ks edges g) (hstart : start ≠ "")
    (cuts : CutsShort ks edges start dest g forbidden) :
    ∃ p, IsWalk (SearchArc g forbidden) start dest p := by
  obtain ⟨t, visit, s', u, q, eq, hq, -⟩ := cuts
  obtain ⟨done, cut, P, L, inv⟩ := (Search.Inv.initial g forbidden start dest
    (Routing.along edges ks.weight) (Routing.along edges Edge.latency)).visits sane rfl rfl
    hstart visit
  obtain ⟨-, ru, -⟩ := inv.of_cutOff sane rfl rfl hstart eq
  obtain ⟨p, walk, -⟩ := inv.walk_through ru hq
  exact ⟨p, walk⟩

end

/-! ## What the answer depends on -/

/-- Maps with the same entries under every key. -/
def SameGraph (g h : Adjacency) : Prop := ∀ v, g.lookup v = h.lookup v

theorem SameGraph.outgoing {g h : Adjacency} (same : SameGraph g h) :
    Routing.outgoing g = Routing.outgoing h := by
  funext v
  rw [Routing.outgoing, Routing.outgoing, same v]

theorem hasNode_iff {g : Adjacency} {v : String} :
    hasNode g v = true ↔ ∃ u es, g.lookup u = some es ∧ (u = v ∨ ∃ e ∈ es, e.destinationIp = v) := by
  simp only [hasNode, List.any_eq_true, Bool.or_eq_true, beq_iff_eq]
  constructor
  · rintro ⟨⟨u, es⟩, mem, h⟩
    exact ⟨u, es, AList.mem_lookup_iff.mpr mem, h⟩
  · rintro ⟨u, es, look, h⟩
    exact ⟨⟨u, es⟩, AList.mem_lookup_iff.mp look, h⟩

theorem SameGraph.hasNode {g h : Adjacency} (same : SameGraph g h) :
    Routing.hasNode g = Routing.hasNode h := by
  funext v
  rw [Bool.eq_iff_iff, hasNode_iff, hasNode_iff]
  simp only [same _]

/-- Neither the order of the entries of the map matters nor, beyond the weight
of its edges, the solver. -/
theorem findShortestPath_congr {ks ks' : KShortestSolver} (weight : ks.weight = ks'.weight)
    {g h : Adjacency} (same : SameGraph g h) (start dest : String)
    (forbiddenNodes forbiddenEdges : String → Bool) (fuel : Nat) :
    ks.findShortestPath start dest g forbiddenNodes forbiddenEdges fuel =
      ks'.findShortestPath start dest h forbiddenNodes forbiddenEdges fuel := by
  have relax : ks.relax = ks'.relax := by
    funext u c fn fe s e
    rw [KShortestSolver.relax, KShortestSolver.relax, weight]
  have turn : ks.turn dest g forbiddenNodes forbiddenEdges =
      ks'.turn dest h forbiddenNodes forbiddenEdges := by
    funext s
    rw [KShortestSolver.turn, KShortestSolver.turn, same.outgoing, relax]
  have loop : ∀ (pathFuel n : Nat) (s : Search),
      ks.searchLoop start dest g forbiddenNodes forbiddenEdges pathFuel n s =
        ks'.searchLoop start dest h forbiddenNodes forbiddenEdges pathFuel n s := by
    intro pathFuel n
    induction n with
    | zero => intro s; rfl
    | succ n ih =>
      intro s
      rw [KShortestSolver.searchLoop, KShortestSolver.searchLoop, turn]
      simp only [ih]
  rw [KShortestSolver.findShortestPath, KShortestSolver.findShortestPath, loop, Search.start,
    Search.start, same.hasNode]

theorem buildPath_mono {prev : String → String} {n m : Nat} (hnm : n ≤ m) {node : String}
    {acc p : List String} (h : buildPath prev n node acc = some p) :
    buildPath prev m node acc = some p := by
  induction n generalizing m node acc with
  | zero => simp [buildPath] at h
  | succ n ih =>
    obtain ⟨m, rfl⟩ : ∃ m', m = m' + 1 := ⟨m - 1, by omega⟩
    rw [buildPath] at h ⊢
    by_cases stop : node = ""
    · rw [if_pos stop] at h ⊢; exact h
    · rw [if_neg stop] at h ⊢; exact ih (by omega) h

theorem searchLoop_mono {ks : KShortestSolver} {start dest : String} {g : Adjacency}
    {forbiddenNodes forbiddenEdges : String → Bool} {pf pf' n m : Nat} (hp : pf ≤ pf')
    (hnm : n ≤ m) {s : Search} {res : Except String Path}
    (h : ks.searchLoop start dest g forbiddenNodes forbiddenEdges pf n s = some res) :
    ks.searchLoop start dest g forbiddenNodes forbiddenEdges pf' m s = some res := by
  induction n generalizing m s with
  | zero => simp [KShortestSolver.searchLoop] at h
  | succ n ih =>
    obtain ⟨m, rfl⟩ : ∃ m', m = m' + 1 := ⟨m - 1, by omega⟩
    rw [KShortestSolver.searchLoop] at h ⊢
    cases turn : ks.turn dest g forbiddenNodes forbiddenEdges s with
    | exhausted => rw [turn] at h; exact h
    | stale s' => rw [turn] at h; exact ih (by omega) h
    | cutOff s' u => rw [turn] at h; exact ih (by omega) h
    | relaxed s' u => rw [turn] at h; exact ih (by omega) h
    | reached s' c =>
      rw [turn] at h
      simp only [Option.bind_eq_bind, Option.bind_eq_some_iff] at h ⊢
      obtain ⟨p, built, rest⟩ := h
      exact ⟨p, buildPath_mono hp built, rest⟩

/-- More fuel does not change an answer. -/
theorem findShortestPath_mono {ks : KShortestSolver} {start dest : String} {g : Adjacency}
    {forbiddenNodes forbiddenEdges : String → Bool} {n m : Nat} (hnm : n ≤ m)
    {res : Except String Path}
    (h : ks.findShortestPath start dest g forbiddenNodes forbiddenEdges n = some res) :
    ks.findShortestPath start dest g forbiddenNodes forbiddenEdges m = some res :=
  searchLoop_mono hnm hnm h

end SkyAccel.Routing
