import SkyAccel.Lib.Strings
import SkyAccel.Lib.Walk

/-!
# The routing graph as the solvers see it

Edges with weights read as exact rationals, the adjacency map a solver builds
from an edge list, and the two abstract notions the results about solvers are
stated with: `Arc`, that an edge joins two nodes, and `along`, the value a
measure of edges takes on the edge between two nodes.
-/

namespace SkyAccel.Routing

structure Edge where
  sourceIp : String
  destinationIp : String
  edgeWeight : ℚ
  load : ℚ
  latency : ℚ
  deriving DecidableEq

structure PathInfo where
  hops : List String
  rtt : ℚ
  rawRTT : ℚ
  deriving DecidableEq

/-- `map[string][]*graph.Edge`. -/
abbrev Adjacency := AList (fun _ : String => List Edge)

/-- `graph_[v]`, which is empty for a missing key. -/
def outgoing (g : Adjacency) (v : String) : List Edge := (g.lookup v).getD []

/-- The adjacency map of an edge list: each edge is appended under its source. -/
def adjacency (edges : List Edge) : Adjacency :=
  edges.foldl (fun g e => g.insert e.sourceIp (outgoing g e.sourceIp ++ [e])) ∅

/-- The `nodes` set of an edge list. -/
def isNode (edges : List Edge) (v : String) : Bool :=
  edges.any fun e => e.sourceIp == v || e.destinationIp == v

def Arc (edges : List Edge) (u v : String) : Prop :=
  ∃ e ∈ edges, e.sourceIp = u ∧ e.destinationIp = v

/-- At most one edge for each ordered pair of nodes. -/
def OnePerPair (edges : List Edge) : Prop :=
  ∀ e ∈ edges, ∀ e' ∈ edges, e.sourceIp = e'.sourceIp → e.destinationIp = e'.destinationIp → e = e'

/-- A node name can be told apart from its neighbours in a joined path. -/
def Named (v : String) : Prop := v ≠ "" ∧ Strings.contains v "->" = false

/-- An edge list as the graph manager keeps it: one edge for each ordered pair,
no negative measure, and names that joining with an arrow does not blur. -/
structure WellFormed (edges : List Edge) : Prop where
  one : OnePerPair edges
  nonneg : ∀ e ∈ edges, 0 ≤ e.edgeWeight ∧ 0 ≤ e.latency
  named : ∀ e ∈ edges, Named e.sourceIp ∧ Named e.destinationIp

/-- A measure of edges as a weight on pairs of nodes. -/
def along (edges : List Edge) (f : Edge → ℚ) (u v : String) : ℚ :=
  match edges.find? fun e => e.sourceIp == u && e.destinationIp == v with
  | some e => f e
  | none => 0

theorem along_eq {edges : List Edge} (one : OnePerPair edges) (f : Edge → ℚ) {e : Edge}
    (he : e ∈ edges) : along edges f e.sourceIp e.destinationIp = f e := by
  unfold along
  cases found : edges.find? fun x => x.sourceIp == e.sourceIp && x.destinationIp == e.destinationIp with
  | none =>
    have := List.find?_eq_none.mp found e he
    simp at this
  | some e' =>
    have ends := List.find?_some found
    simp only [Bool.and_eq_true, beq_iff_eq] at ends
    rw [one e' (List.mem_of_find?_eq_some found) e he ends.1 ends.2]

theorem along_nonneg {edges : List Edge} {f : Edge → ℚ} (hf : ∀ e ∈ edges, 0 ≤ f e)
    (u v : String) : 0 ≤ along edges f u v := by
  unfold along
  split
  · rename_i e found
    exact hf e (List.mem_of_find?_eq_some found)
  · exact le_refl _

@[simp] theorem outgoing_insert (g : Adjacency) (v : String) (es : List Edge) :
    outgoing (g.insert v es) v = es := by
  simp [outgoing]

theorem outgoing_insert_ne (g : Adjacency) {u v : String} (h : u ≠ v) (es : List Edge) :
    outgoing (g.insert v es) u = outgoing g u := by
  simp [outgoing, AList.lookup_insert_ne h]

/-- Edges keep the order of the list under each source. -/
theorem outgoing_adjacency (edges : List Edge) (v : String) :
    outgoing (adjacency edges) v = edges.filter (fun e => e.sourceIp == v) := by
  have run : ∀ (rest : List Edge) (g : Adjacency),
      outgoing (rest.foldl (fun g e => g.insert e.sourceIp (outgoing g e.sourceIp ++ [e])) g) v =
        outgoing g v ++ rest.filter (fun e => e.sourceIp == v) := by
    intro rest
    induction rest with
    | nil => intro g; simp
    | cons e rest ih =>
      intro g
      rw [List.foldl_cons, ih]
      by_cases h : e.sourceIp = v
      · subst h; simp
      · rw [outgoing_insert_ne g (Ne.symm h)]; simp [h]
  simpa [adjacency, outgoing] using run edges ∅

theorem lookup_adjacency_isSome (edges : List Edge) (v : String) :
    ((adjacency edges).lookup v).isSome = true ↔ ∃ e ∈ edges, e.sourceIp = v := by
  have run : ∀ (rest : List Edge) (g : Adjacency),
      ((rest.foldl (fun g e => g.insert e.sourceIp (outgoing g e.sourceIp ++ [e])) g).lookup
        v).isSome = true ↔ (g.lookup v).isSome = true ∨ ∃ e ∈ rest, e.sourceIp = v := by
    intro rest
    induction rest with
    | nil => intro g; simp
    | cons e rest ih =>
      intro g
      rw [List.foldl_cons, ih]
      by_cases h : e.sourceIp = v
      · subst h; simp
      · rw [AList.lookup_insert_ne (Ne.symm h)]; simp [h]
  simpa [adjacency] using run edges ∅

end SkyAccel.Routing
