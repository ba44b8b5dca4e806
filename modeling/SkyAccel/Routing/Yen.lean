import SkyAccel.Routing.Spur

/-!
# Yen's loop

A state of the loop is the list `A` of paths found and the candidates. The
invariant `YenInv` says that the paths found are simple, distinct and exact, that
the working copy of the graph is as it was at the start, and that the queue holds
the candidates of roots of `A`. One position offers the candidate of its root
(`spur_spec`), and one round moves a cheapest candidate of all roots to `A` or
stops with every simple path found (`round_spec`).
-/

namespace SkyAccel.Routing

open Walk (IsWalk IsPath cost)
open Deviation (Root Untaken Deviates)
open Strings (join split contains)

/-- The queue entry of a path. -/
def Path.entry (p : Path) : PQNode := ⟨join p.hops "->", p.cost, p.rawRTT⟩

/-- Queue a candidate that the queue does not have. -/
def offer (B : PriorityQueue) : Option Path → PriorityQueue
  | none => B
  | some p => if isPathInQueue p B then B else Heap.push byCost B p.entry

section
variable {ks : KShortestSolver} {A : List Path} {c : KShortestSolver.Candidates} {r : List String} {p : Path}
  {start dest : String} {fuel : Nat}

/-! ## Names -/

theorem arrow_unbordered : Strings.Unbordered "->".toList := by
  have chars : "->".toList = ['-', '>'] := by decide
  rw [chars]
  rintro (_ | ⟨a, _ | ⟨b, u⟩⟩) v h hu hv hpre
  · exact hu rfl
  · obtain ⟨-, rfl⟩ := List.cons.inj h
    simp at hpre
  · have := congrArg List.length h
    have pos := List.length_pos_iff.mpr hv
    simp only [List.length_append, List.length_cons, List.length_nil] at this
    omega

theorem path_free (edges : WellFormed ks.edges) (hs : contains start "->" = false)
    {hops : List String} (hp : IsWalk (Arc ks.edges) start dest hops) :
    ∀ x ∈ hops, contains x "->" = false := by
  intro x hx
  rcases hp.mem_targets x hx with rfl | ⟨u, e, he, -, rfl⟩
  · exact hs
  · exact (edges.named e he).2.2

/-- A path with a root has a first edge, so its start is a node of the graph. -/
theorem start_free (edges : WellFormed ks.edges) (found : ∀ a ∈ A, Exact ks start dest a)
    (root : Root (hopLists A) r) : contains start "->" = false := by
  obtain ⟨hr, hops, mem, ⟨t, ht⟩, ne⟩ := root
  obtain ⟨a, ha, rfl⟩ := mem_hopLists.mp mem
  have path := (found a ha).path
  obtain ⟨rest, shape⟩ := List.head?_eq_some_iff.mp path.first
  cases rest with
  | nil =>
    exfalso
    rw [shape, List.append_eq_singleton_iff] at ht
    rcases ht with ⟨h, -⟩ | ⟨h, -⟩
    · exact hr h
    · exact ne (h.trans shape.symm)
  | cons b rest =>
    have chain := path.chain
    rw [shape] at chain
    obtain ⟨e, he, hsrc, -⟩ := (List.isChain_cons_cons.mp chain).1
    rw [← hsrc]
    exact (edges.named e he).1.2

theorem Exact.eq_of_join {p q : Path} (hs : contains start "->" = false)
    (edges : WellFormed ks.edges) (hp : Exact ks start dest p) (hq : Exact ks start dest q)
    (h : join p.hops "->" = join q.hops "->") : p = q := by
  have same : p.hops = q.hops :=
    Strings.join_injective arrow_unbordered (by decide) hp.path.ne_nil hq.path.ne_nil
      (path_free edges hs hp.path.toIsWalk) (path_free edges hs hq.path.toIsWalk) h
  cases p with
  | mk hops c rtt =>
    cases q with
    | mk hops' c' rtt' =>
      simp only at same
      subst same
      simp only [Path.mk.injEq, true_and]
      exact ⟨hp.cost.trans hq.cost.symm, hp.rawRTT.trans hq.rawRTT.symm⟩

theorem Exact.parse {p : Path} (hs : contains start "->" = false) (edges : WellFormed ks.edges)
    (hp : Exact ks start dest p) : KShortestSolver.parsePath p.entry = p := by
  have hops : removeConsecutiveDuplicates (split (join p.hops "->") "->") = p.hops := by
    rw [Strings.split_join arrow_unbordered (by decide) hp.path.ne_nil
      (path_free edges hs hp.path.toIsWalk), removeConsecutiveDuplicates_of_nodup hp.path.nodup]
  simp only [KShortestSolver.parsePath, Path.entry, hops]

/-! ## Positions and roots -/

theorem mem_positions {hops : List String} {j : Nat} :
    (hops, j) ∈ KShortestSolver.positions A ↔
      hops ∈ hopLists A ∧ j + 1 < hops.length := by
  simp only [KShortestSolver.positions, List.mem_flatMap, List.mem_map, List.mem_range,
    Prod.mk.injEq, mem_hopLists]
  constructor
  · rintro ⟨a, ha, i, hi, rfl, rfl⟩
    exact ⟨⟨a, ha, rfl⟩, by omega⟩
  · rintro ⟨⟨a, ha, rfl⟩, hj⟩
    exact ⟨a, ha, j, by omega, rfl, rfl⟩

theorem root_of_position {hops : List String} {j : Nat}
    (h : (hops, j) ∈ KShortestSolver.positions A) :
    Root (hopLists A) (hops.take (j + 1)) ∧
      hops[j]? = some (spurNode (hops.take (j + 1))) := by
  obtain ⟨mem, hj⟩ := mem_positions.mp h
  have node : (hops.take (j + 1)).getLast? = hops[j]? := by
    rw [List.getLast?_take]
    have : hops[j]? = some (hops[j]) := List.getElem?_eq_getElem (by omega)
    simp [this]
  refine ⟨⟨?_, hops, mem, List.take_prefix _ _, ?_⟩, ?_⟩
  · intro h
    have := congrArg List.length h
    rw [List.length_take, List.length_nil] at this
    omega
  · intro h
    have := congrArg List.length h
    rw [List.length_take] at this
    omega
  · rw [spurNode, node, List.getElem?_eq_getElem (by omega), Option.getD_some]

theorem position_of_root (root : Root (hopLists A) r) :
    ∃ pos ∈ KShortestSolver.positions A, pos.1.take (pos.2 + 1) = r := by
  obtain ⟨hr, hops, mem, pre, ne⟩ := root
  have pos := List.length_pos_iff.mpr hr
  have short : r.length < hops.length :=
    lt_of_le_of_ne pre.length_le fun h => ne (pre.eq_of_length h)
  refine ⟨(hops, r.length - 1), mem_positions.mpr ⟨mem, by omega⟩, ?_⟩
  rw [Nat.sub_add_cancel pos]
  exact (List.prefix_iff_eq_take.mp pre).symm

/-! ## One position -/

/-- The sum over the first edges found is the cost along the edge list, where
the map still has the edges of the list. -/
theorem sumHops_eq (f : Edge → ℚ) {edges : List Edge} {g : Adjacency} {hops : List String}
    (agree : ∀ u ∈ hops.dropLast, outgoing g u = edges.filter fun e => e.sourceIp == u) :
    sumHops f g hops = cost (along edges f) hops := by
  induction hops with
  | nil => rfl
  | cons u hops ih =>
    cases hops with
    | nil => rfl
    | cons v hops =>
      have step : ((outgoing g u).find? fun e => e.destinationIp == v).elim 0 f =
          along edges f u v := by
        rw [agree u (by simp), List.find?_filter, along]
        simp only [Bool.decide_and, Bool.decide_eq_true]
        cases edges.find? fun e => e.sourceIp == u && e.destinationIp == v <;> rfl
      rw [sumHops, step, Walk.cost_cons_cons, ih fun w hw => agree w (by simp [hw])]

theorem sameGraph_insert {g h : Adjacency} (same : SameGraph g h) (v : String) (es : List Edge) :
    SameGraph (g.insert v es) (h.insert v es) := by
  intro u
  by_cases hu : u = v
  · subst hu; simp
  · rw [AList.lookup_insert_ne hu, AList.lookup_insert_ne hu, same u]

theorem sameGraph_restore {g h : Adjacency} (same : SameGraph g h) {v : String} {es : List Edge}
    (look : g.lookup v = some es) (es' : List Edge) :
    SameGraph ((g.insert v es').insert v es) h := by
  intro u
  by_cases hu : u = v
  · subst hu; rw [AList.lookup_insert, ← same u, look]
  · rw [AList.lookup_insert_ne hu, AList.lookup_insert_ne hu, same u]

theorem root_has_edges (rp : RootPath ks.edges start dest r) (found : ∀ a ∈ A, Exact ks start dest a)
    (root : Root (hopLists A) r) : ∃ e ∈ ks.edges, e.sourceIp = spurNode r := by
  obtain ⟨-, hops, mem, ⟨t, ht⟩, ne⟩ := root
  obtain ⟨a, ha, rfl⟩ := mem_hopLists.mp mem
  cases t with
  | nil => simp at ht; exact absurd ht ne
  | cons b t =>
    have chain := (found a ha).path.chain
    rw [← ht, List.isChain_append] at chain
    obtain ⟨e, he, hsrc, -⟩ := chain.2.2 _ rp.path.last b (by simp)
    exact ⟨e, he, hsrc⟩

theorem completePath_eq (rp : RootPath ks.edges start dest r) {spurPath : Path}
    (exact' : Exact ks start dest (ks.extend r spurPath)) {g : Adjacency}
    (same : SameGraph g (spurGraph ks.edges A r)) :
    ks.completePath r spurPath g = ks.extend r spurPath := by
  have agree : ∀ u ∈ r.dropLast, outgoing g u = ks.edges.filter fun e => e.sourceIp == u := by
    intro u hu
    have ne : u ≠ spurNode r := by
      rintro rfl
      have := rp.path.nodup
      rw [← dropLast_spurNode rp.ne_nil, List.nodup_append] at this
      exact this.2.2 _ hu _ List.mem_cons_self rfl
    have elsewhere : (u != spurNode r) = true := bne_iff_ne.mpr ne
    rw [same.outgoing, outgoing_spurGraph rp.ne_nil]
    simp [elsewhere]
  have nodup : (r.dropLast ++ spurPath.hops).Nodup := exact'.path.nodup
  rw [KShortestSolver.completePath, KShortestSolver.calculatePathCost, calculatePathRTT,
    sumHops_eq _ agree, sumHops_eq _ agree, removeConsecutiveDuplicates_of_nodup nodup]
  rfl

theorem Deviates.not_isPathInList (dev : Deviates (hopLists A) r p.hops)
    (edges : WellFormed ks.edges) (found : ∀ a ∈ A, Exact ks start dest a)
    (exact' : Exact ks start dest p) : isPathInList p A = false := by
  rw [Bool.eq_false_iff, isPathInList, Ne, List.any_eq_true]
  rintro ⟨a, ha, h⟩
  have hs := start_free edges found dev.1
  have same := Exact.eq_of_join hs edges (found a ha) exact' (beq_iff_eq.mp h)
  exact dev.not_mem (same ▸ mem_hopLists.mpr ⟨a, ha, rfl⟩)

/-- A path that deviates from those found is refused only if the queue has it. -/
theorem addCandidate_eq (edges : WellFormed ks.edges) (found : ∀ a ∈ A, Exact ks start dest a)
    (exact' : Exact ks start dest p) (dev : Deviates (hopLists A) r p.hops) (B : PriorityQueue) :
    KShortestSolver.addCandidate A p B = offer B (some p) := by
  have new := Deviates.not_isPathInList dev edges found exact'
  have simple := hasDuplicateNodes_eq_false.mpr exact'.path.nodup
  simp only [KShortestSolver.addCandidate, new, simple, true_and, offer, Path.entry]
  cases isPathInQueue p B <;> rfl

/-- A position puts the candidate of its root into the queue, and the working
copy of the graph is as before. -/
theorem spur_spec (proper : ks.Proper) (hstart : start ≠ "")
    (found : ∀ a ∈ A, Exact ks start dest a) (hf : ks.searchFuel ≤ fuel)
    (same : SameGraph c.graphCopy (adjacency ks.edges)) {pos : List String × Nat}
    (hpos : pos ∈ KShortestSolver.positions A) :
    ∃ g, SameGraph g (adjacency ks.edges) ∧ ks.spur dest fuel A c pos =
      some ⟨g, offer c.B (ks.deviation dest A (pos.1.take (pos.2 + 1)))⟩ := by
  obtain ⟨hops, j⟩ := pos
  obtain ⟨root, node⟩ := root_of_position hpos
  have rp := rootPath_of_root (fun a ha => (found a ha).path) root
  have len : (hops.take (j + 1)).length = j + 1 := by
    have := (mem_positions.mp hpos).2
    rw [List.length_take]
    omega
  set r := hops.take (j + 1) with hr
  obtain ⟨es, look⟩ : ∃ es, c.graphCopy.lookup (spurNode r) = some es := by
    rw [same, ← Option.isSome_iff_exists, lookup_adjacency_isSome]
    exact root_has_edges rp found root
  have out : outgoing (adjacency ks.edges) (spurNode r) = es := by
    rw [outgoing, ← same, look, Option.getD_some]
  have during : SameGraph
      (c.graphCopy.insert (spurNode r) (KShortestSolver.spurEdges A r j es))
      (spurGraph ks.edges A r) := by
    have := sameGraph_insert same (spurNode r) (KShortestSolver.spurEdges A r j es)
    rwa [spurGraph, out, len, Nat.add_sub_cancel]
  have restored := sameGraph_restore same look (KShortestSolver.spurEdges A r j es)
  have apart : spurNode r ≠ dest := fun h => rp.before (h ▸ List.mem_of_getLast? rp.path.last)
  have before : ¬ isInPath dest r = true := fun h => rp.before (isInPath_iff.mp h)
  have search : ∀ res, ks.spurSearch dest A r = some res →
      ks.findShortestPath (spurNode r) dest
        (c.graphCopy.insert (spurNode r) (KShortestSolver.spurEdges A r j es)) (onRoot r)
        (fun _ => false) fuel = some res := by
    intro res h
    rw [findShortestPath_congr rfl during]
    exact findShortestPath_mono hf h
  simp only [KShortestSolver.spur, node, look, ← hr, if_neg apart, if_neg before]
  rcases spurSearch_spec proper hstart root rp with ⟨err, eq, -⟩ | ⟨q, eq, nodup, exact', dev⟩
  · refine ⟨_, restored, ?_⟩
    rw [show (fun node => isInPath node r.dropLast) = onRoot r from rfl, search _ eq]
    simp only [KShortestSolver.deviation, eq, offer]
  · refine ⟨_, restored, ?_⟩
    have simple := hasDuplicateNodes_eq_false.mpr nodup
    rw [show (fun node => isInPath node r.dropLast) = onRoot r from rfl, search _ eq]
    simp only [KShortestSolver.deviation, eq, simple, completePath_eq rp exact' during,
      addCandidate_eq proper.edges found exact' dev, Bool.false_eq_true, if_false]

/-! ## The queue of candidates -/

/-- The queue holds, each once, candidates of roots of the paths found. -/
structure QueueInv (ks : KShortestSolver) (dest : String) (A : List Path) (B : PriorityQueue) :
    Prop where
  heap : Heap.Ordered PQNode.cost B
  entries : ∀ x ∈ B, ∃ r p, Root (hopLists A) r ∧ ks.deviation dest A r = some p ∧ x = p.entry
  nodes : (B.map PQNode.node).Nodup

theorem mem_offer {B : PriorityQueue} {x : PQNode} (h : x ∈ B) (o : Option Path) :
    x ∈ offer B o := by
  cases o with
  | none => exact h
  | some p =>
    rw [offer]
    split
    · exact h
    · exact (Heap.push_perm PQNode.cost B p.entry).mem_iff.mpr (List.mem_cons_of_mem _ h)

/-- After its offer, the queue has the candidate of a root. -/
theorem QueueInv.offer (proper : ks.Proper) (hstart : start ≠ "")
    (found : ∀ a ∈ A, Exact ks start dest a) {B : PriorityQueue} (q : QueueInv ks dest A B)
    (root : Root (hopLists A) r) :
    QueueInv ks dest A (offer B (ks.deviation dest A r)) ∧
      ∀ p, ks.deviation dest A r = some p → p.entry ∈ Routing.offer B (ks.deviation dest A r) := by
  rcases deviation_spec proper hstart found root with ⟨eq, -⟩ | ⟨p, eq, exact', -⟩
  · rw [eq]
    exact ⟨q, fun p h => nomatch h⟩
  · have hs := start_free proper.edges found root
    rw [eq, Routing.offer]
    by_cases known : isPathInQueue p B = true
    · rw [if_pos known]
      refine ⟨q, fun p' h => ?_⟩
      obtain rfl := Option.some.inj h
      rw [isPathInQueue, List.any_eq_true] at known
      obtain ⟨x, hx, same⟩ := known
      obtain ⟨r', p', root', eq', rfl⟩ := q.entries x hx
      have other := (deviation_some proper hstart found root' eq').1
      rw [Exact.eq_of_join hs proper.edges exact' other (beq_iff_eq.mp same).symm]
      exact hx
    · rw [if_neg known]
      have perm := Heap.push_perm PQNode.cost B p.entry
      refine ⟨⟨Heap.push_ordered q.heap _, fun x hx => ?_, ?_⟩, fun p' h => ?_⟩
      · rcases List.mem_cons.mp (perm.mem_iff.mp hx) with rfl | hx
        · exact ⟨r, p, root, eq, rfl⟩
        · exact q.entries x hx
      · rw [(perm.map PQNode.node).nodup_iff, List.map_cons, List.nodup_cons]
        refine ⟨fun h => known ?_, q.nodes⟩
        obtain ⟨x, hx, same⟩ := List.mem_map.mp h
        rw [isPathInQueue, List.any_eq_true]
        exact ⟨x, hx, by simpa [Path.entry] using same⟩
      · obtain rfl := Option.some.inj h
        exact perm.mem_iff.mpr List.mem_cons_self

/-- The positions of a round fill the queue with the candidates of their roots. -/
theorem foldlM_spur (proper : ks.Proper) (hstart : start ≠ "")
    (found : ∀ a ∈ A, Exact ks start dest a) (hf : ks.searchFuel ≤ fuel)
    (ps : List (List String × Nat)) (hps : ∀ pos ∈ ps, pos ∈ KShortestSolver.positions A)
    (same : SameGraph c.graphCopy (adjacency ks.edges)) (q : QueueInv ks dest A c.B) :
    ∃ c', ps.foldlM (ks.spur dest fuel A) c = some c' ∧
      SameGraph c'.graphCopy (adjacency ks.edges) ∧ QueueInv ks dest A c'.B ∧
      (∀ x ∈ c.B, x ∈ c'.B) ∧
      ∀ pos ∈ ps, ∀ p, ks.deviation dest A (pos.1.take (pos.2 + 1)) = some p → p.entry ∈ c'.B := by
  induction ps generalizing c with
  | nil => exact ⟨c, rfl, same, q, fun _ hx => hx, fun _ hp => nomatch hp⟩
  | cons pos ps ih =>
    have hpos := hps pos List.mem_cons_self
    obtain ⟨g, same', step⟩ := spur_spec proper hstart found hf same hpos
    have root := (root_of_position hpos).1
    obtain ⟨q', has⟩ := q.offer proper hstart found root
    obtain ⟨c', run, same'', q'', keep, rest⟩ :=
      ih (fun p hp => hps p (List.mem_cons_of_mem _ hp)) (c := ⟨g, _⟩) same' q'
    refine ⟨c', ?_, same'', q'', fun x hx => keep x (mem_offer hx _), ?_⟩
    · rw [List.foldlM_cons, step]; exact run
    · intro pos' hpos' p hp
      rcases List.mem_cons.mp hpos' with rfl | hpos'
      · exact keep _ (has p hp)
      · exact rest pos' hpos' p hp

/-! ## One round -/

structure YenInv (ks : KShortestSolver) (start dest : String) (A : List Path)
    (c : KShortestSolver.Candidates) : Prop where
  nonempty : A ≠ []
  found : ∀ a ∈ A, Exact ks start dest a
  distinct : (hopLists A).Nodup
  graph : SameGraph c.graphCopy (adjacency ks.edges)
  queue : QueueInv ks dest A c.B

/-- `p` is a cheapest candidate of the roots of `A`. -/
structure Extends (ks : KShortestSolver) (dest : String) (A : List Path) (p : Path) : Prop where
  root : ∃ r, Root (hopLists A) r ∧ ks.deviation dest A r = some p
  least : ∀ r q, Root (hopLists A) r → ks.deviation dest A r = some q → p.cost ≤ q.cost

/-- Every simple path is among those found. -/
def AllFound (ks : KShortestSolver) (start dest : String) (A : List Path) : Prop :=
  ∀ q, IsPath (Arc ks.edges) start dest q → q ∈ hopLists A

/-- A simple path not found yet deviates somewhere. -/
theorem exists_deviation (nonempty : A ≠ []) (found : ∀ a ∈ A, Exact ks start dest a)
    {q : List String} (hq : IsPath (Arc ks.edges) start dest q) (absent : q ∉ hopLists A) :
    ∃ r, Deviates (hopLists A) r q := by
  obtain ⟨a, ha⟩ := List.exists_mem_of_ne_nil A nonempty
  refine Deviation.exists_deviates hq.first
    ⟨a.hops, mem_hopLists.mpr ⟨a, ha, rfl⟩, (found a ha).path.first⟩ ?_
  intro hops hmem
  obtain ⟨b, hb, rfl⟩ := mem_hopLists.mp hmem
  have path := (found b hb).path
  constructor
  · exact fun hpre => absent (hq.eq_of_prefix path hpre ▸ hmem)
  · exact fun hpre => absent (path.eq_of_prefix hq hpre ▸ hmem)

theorem YenInv.extend (proper : ks.Proper) (hstart : start ≠ "")
    (inv : YenInv ks start dest A c) (root : Root (hopLists A) r)
    (dev : ks.deviation dest A r = some p) {g : Adjacency}
    (same : SameGraph g (adjacency ks.edges)) {B : PriorityQueue} (full : QueueInv ks dest A B)
    {B' : PriorityQueue} (popped : Heap.pop byCost B = some (p.entry, B')) :
    YenInv ks start dest (A ++ [p]) ⟨g, B'⟩ := by
  have perm := Heap.pop_perm popped
  obtain ⟨exact', leaves⟩ := deviation_some proper hstart inv.found root dev
  have nodes : p.entry.node ∉ B'.map PQNode.node := by
    have := (perm.map PQNode.node).nodup_iff.mp full.nodes
    exact (List.nodup_cons.mp this).1
  refine ⟨by simp, ?_, ?_, same, (Heap.pop_ordered full.heap popped).1, ?_, ?_⟩
  · intro a ha
    rcases List.mem_append.mp ha with ha | ha
    · exact inv.found a ha
    · rw [List.mem_singleton.mp ha]; exact exact'
  · rw [hopLists, List.map_append, List.map_singleton, List.nodup_append]
    refine ⟨inv.distinct, List.nodup_singleton _, ?_⟩
    rintro x hx y hy rfl
    rw [List.mem_singleton.mp hy] at hx
    exact leaves.not_mem hx
  · -- the other candidates stay candidates: theirs are other roots
    intro x hx
    obtain ⟨r', p', root', dev', rfl⟩ := full.entries x (perm.mem_iff.mpr (List.mem_cons_of_mem _ hx))
    have ne : r' ≠ r := by
      rintro rfl
      obtain rfl := Option.some.inj (dev.symm.trans dev')
      exact nodes (List.mem_map_of_mem hx)
    refine ⟨r', p', ?_, ?_, rfl⟩
    · have := root'.append p.hops
      rwa [hopLists, List.map_append, List.map_singleton]
    · rw [deviation_append root' leaves ne, dev']
  · have := (perm.map PQNode.node).nodup_iff.mp full.nodes
    exact (List.nodup_cons.mp this).2

/-- A round adds a cheapest candidate of all roots, and breaks the loop only
when every simple path has been found. -/
theorem round_spec (proper : ks.Proper) (hstart : start ≠ "") (hf : ks.searchFuel ≤ fuel)
    (inv : YenInv ks start dest A c) :
    (ks.round dest fuel A c = some none ∧ AllFound ks start dest A) ∨
    (∃ p c', ks.round dest fuel A c = some (some (A ++ [p], c')) ∧ Extends ks dest A p ∧
      YenInv ks start dest (A ++ [p]) c') := by
  obtain ⟨c', run, same, full, -, has⟩ := foldlM_spur proper hstart inv.found hf _
    (fun _ h => h) inv.graph inv.queue
  have every : ∀ r q, Root (hopLists A) r → ks.deviation dest A r = some q → q.entry ∈ c'.B := by
    intro r q root dev
    obtain ⟨pos, hpos, rfl⟩ := position_of_root root
    exact has pos hpos q dev
  cases popped : Heap.pop byCost c'.B with
  | none =>
    refine .inl ⟨by simp only [KShortestSolver.round, run, popped], fun q hq => ?_⟩
    by_contra absent
    obtain ⟨r, dev⟩ := exists_deviation inv.nonempty inv.found hq absent
    rcases deviation_spec proper hstart inv.found dev.1 with ⟨-, no⟩ | ⟨p, eq, -⟩
    · exact no q hq dev
    · have := every r p dev.1 eq
      rw [Heap.pop_eq_none popped] at this
      cases this
  | some x =>
    obtain ⟨x, B'⟩ := x
    have perm := Heap.pop_perm popped
    obtain ⟨r, p, root, dev, rfl⟩ := full.entries x (perm.mem_iff.mpr List.mem_cons_self)
    obtain ⟨exact', leaves⟩ := deviation_some proper hstart inv.found root dev
    have parsed := exact'.parse (start_free proper.edges inv.found root) proper.edges
    have new := Deviates.not_isPathInList leaves proper.edges inv.found exact'
    refine .inr ⟨p, ⟨c'.graphCopy, B'⟩, ?_, ⟨⟨r, root, dev⟩, fun r' q root' dev' => ?_⟩,
      inv.extend proper hstart root dev same full popped⟩
    · simp only [KShortestSolver.round, run, popped, parsed, new,
        Bool.false_eq_true, if_false]
    · rcases List.mem_cons.mp (perm.mem_iff.mp (every r' q root' dev')) with h | h
      · have cost := congrArg PQNode.cost h
        exact le_of_eq cost.symm
      · exact (Heap.pop_ordered full.heap popped).2 _ h

theorem round_some (proper : ks.Proper) (hstart : start ≠ "") (hf : ks.searchFuel ≤ fuel)
    (inv : YenInv ks start dest A c) {A' : List Path} {c' : KShortestSolver.Candidates}
    (h : ks.round dest fuel A c = some (some (A', c'))) :
    ∃ p, A' = A ++ [p] ∧ Extends ks dest A p ∧ YenInv ks start dest A' c' := by
  rcases round_spec proper hstart hf inv with ⟨eq, -⟩ | ⟨p, d, eq, ext, inv'⟩
  · rw [h] at eq; cases eq
  · rw [h] at eq
    obtain ⟨rfl, rfl⟩ := Prod.mk.inj (Option.some.inj (Option.some.inj eq))
    exact ⟨p, rfl, ext, inv'⟩

end

end SkyAccel.Routing
