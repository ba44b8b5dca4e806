import SkyAccel.Routing.Computing
import SkyAccel.Routing.Entry

/-!
# When the paths returned are the cheapest

A search stops relaxing once it has discovered the destination, which it does
from a node nearest to its start. If in every search made for `k` paths such a
node lies on a cheapest way, the answer for `k` paths is optimal. If in one of
them none does, the path that search gives is dearer than another it was to
choose from, and for some number of paths the answer misses a cheaper path.
-/

namespace SkyAccel.Routing

open Walk (IsWalk IsPath cost)
open Deviation (Root Untaken Deviates)

section
variable {ks ks' : KShortestSolver} {A A' : List Path} {c c' : KShortestSolver.Candidates}
  {p : Path} {r q : List String} {start dest : String}

/-! ## No search cut short -/

/-- No path found is dearer than a simple path not found. -/
def CheapestFound (ks : KShortestSolver) (start dest : String) (A : List Path) : Prop :=
  ∀ a ∈ A, ∀ q, IsPath (Arc ks.edges) start dest q → q ∉ hopLists A →
    a.cost ≤ cost (along ks.edges ks.weight) q

theorem CheapestFound.extend (proper : ks.Proper) (hstart : start ≠ "")
    (inv : YenInv ks start dest A c) (ext : Extends ks dest A p)
    (good : ∀ r, Root (hopLists A) r →
      ¬ CutsShort ks ks.edges (spurNode r) dest (spurGraph ks.edges A r) (onRoot r))
    (cheapest : CheapestFound ks start dest A) : CheapestFound ks start dest (A ++ [p]) := by
  intro a ha q hq absent
  rw [hopLists, List.map_append, List.mem_append, not_or] at absent
  rcases List.mem_append.mp ha with ha | ha
  · exact cheapest a ha q hq absent.1
  · rw [List.mem_singleton.mp ha]
    obtain ⟨r, dev⟩ := exists_deviation inv.nonempty inv.found hq absent.1
    rcases deviation_spec proper hstart inv.found dev.1 with ⟨-, none⟩ | ⟨p', eq, -⟩
    · exact absurd dev (none q hq)
    · have least := (deviation_least proper hstart inv.found dev.1 eq).mpr (good r dev.1)
      exact (ext.least r p' dev.1 eq).trans (least q hq dev)

/-! ## A search cut short -/

/-- The candidate of a root is dearer than another path that deviates there. -/
def Blocks (ks : KShortestSolver) (start dest : String) (A : List Path) (p : Path)
    (q : List String) : Prop :=
  ∃ r, ks.deviation dest A r = some p ∧ Deviates (hopLists A) r q ∧
    IsPath (Arc ks.edges) start dest q ∧ cost (along ks.edges ks.weight) q < p.cost

theorem CutsShort.blocks (proper : ks.Proper) (hstart : start ≠ "")
    (inv : YenInv ks start dest A c) (root : Root (hopLists A) r)
    (cuts : CutsShort ks ks.edges (spurNode r) dest (spurGraph ks.edges A r) (onRoot r)) :
    ∃ p q, Blocks ks start dest A p q := by
  have rp := rootPath_of_root (fun a ha => (inv.found a ha).path) root
  have sane := proper.sane_spur A rp.ne_nil
  obtain ⟨w, walk⟩ := cuts.walk sane (rp.spurNode_ne proper hstart)
  obtain ⟨q, path, -⟩ := Walk.exists_path_le (fun a b h => SearchArc.nonneg sane a b h) walk
  obtain ⟨-, simple, dev⟩ := (spurPath_iff root rp).mp path
  rcases deviation_spec proper hstart inv.found root with ⟨-, none⟩ | ⟨p, eq, -⟩
  · exact absurd dev (none _ simple)
  · have : ¬ ∀ q, IsPath (Arc ks.edges) start dest q → Deviates (hopLists A) r q →
        p.cost ≤ cost (along ks.edges ks.weight) q := fun least =>
      (deviation_least proper hstart inv.found root eq).mp least cuts
    push Not at this
    obtain ⟨q, hq, hdev, less⟩ := this
    exact ⟨p, q, r, eq, hdev, hq, less⟩

/-- While the dear candidate waits, the cheaper path stays out. -/
theorem Blocks.extend (proper : ks.Proper) (hstart : start ≠ "") (inv : YenInv ks start dest A c)
    (blocks : Blocks ks start dest A p q) {p' : Path} (ext : Extends ks dest A p')
    (ne : p' ≠ p) : Blocks ks start dest (A ++ [p']) p q := by
  obtain ⟨r, eq, ⟨root, h, hh, untaken⟩, hq, less⟩ := blocks
  obtain ⟨r', root', eq'⟩ := ext.root
  have other : r ≠ r' := by
    rintro rfl
    exact ne (Option.some.inj (eq'.symm.trans eq))
  have dev' := (deviation_some proper hstart inv.found root' eq').2
  have lists : hopLists (A ++ [p']) = hopLists A ++ [p'.hops] := by simp [hopLists]
  refine ⟨r, ?_, ⟨?_, h, hh, ?_⟩, hq, less⟩
  · rw [deviation_append root dev' other, eq]
  · rw [lists]; exact root.append _
  · rw [lists]; exact (dev'.untaken_append root other h).mpr untaken

/-- The run goes on until the dear candidate is taken, before the cheaper path. -/
theorem Blocks.taken (proper : ks.Proper) (hstart : start ≠ "") (run : Rounds ks start dest A c)
    (room : ({s | IsPath (Arc ks.edges) start dest s}.ncard : Int) < ks.k)
    (blocks : Blocks ks start dest A p q) :
    ∃ A' c', Rounds ks start dest A' c' ∧ p ∈ A' ∧ q ∉ hopLists A' ∧
      IsPath (Arc ks.edges) start dest q ∧ cost (along ks.edges ks.weight) q < p.cost := by
  have inv := run.inv proper hstart
  have few := (length_le_ncard inv).1
  -- each round adds a path, and there are finitely many
  induction hn : {s | IsPath (Arc ks.edges) start dest s}.ncard - A.length using
    Nat.strong_induction_on generalizing A c with
  | _ n ih =>
    obtain ⟨r, eq, dev, hq, less⟩ := id blocks
    rcases round_spec proper hstart (le_refl _) inv with ⟨-, all⟩ | ⟨p', c', step, ext, inv'⟩
    · exact absurd (all q hq) dev.not_mem
    · have run' := run.next (by omega) step
      by_cases same : p' = p
      · refine ⟨_, _, run', by simp [same], ?_, hq, less⟩
        rw [hopLists, List.map_append, List.mem_append, not_or]
        refine ⟨dev.not_mem, fun h => ?_⟩
        rw [List.map_singleton, List.mem_singleton] at h
        have cost := (deviation_some proper hstart inv.found dev.1 eq).1.cost
        rw [h, same, cost] at less
        exact lt_irrefl _ less
      · have few' := (length_le_ncard inv').1
        rw [List.length_append, List.length_singleton] at few'
        refine ih _ ?_ run' (blocks.extend proper hstart inv ext same) inv' ?_ rfl
        · rw [List.length_append, List.length_singleton]
          omega
        · rw [List.length_append, List.length_singleton]
          exact few'

/-! ## Runs for different numbers of paths -/

theorem Rounds.unique (proper : ks.Proper) (hstart : start ≠ "")
    (run : Rounds ks start dest A c) (run' : Rounds ks start dest A' c')
    (same : A.length = A'.length) : A = A' ∧ c = c' := by
  induction run generalizing A' c' with
  | first eq =>
    cases run' with
    | first eq' =>
      rw [eq] at eq'
      obtain rfl := Except.ok.inj (Option.some.inj eq')
      exact ⟨rfl, rfl⟩
    | next run' _ step' =>
      have inv := run'.inv proper hstart
      obtain ⟨p', rfl, -⟩ := round_some proper hstart (le_refl _) inv step'
      have := List.length_pos_iff.mpr inv.nonempty
      simp only [List.length_append, List.length_singleton] at same
      omega
  | next run less step ih =>
    have inv := run.inv proper hstart
    obtain ⟨p, rfl, -⟩ := round_some proper hstart (le_refl _) inv step
    cases run' with
    | first eq' =>
      have := List.length_pos_iff.mpr inv.nonempty
      simp only [List.length_append, List.length_singleton] at same
      omega
    | next run' _ step' =>
      obtain ⟨p', rfl, -⟩ := round_some proper hstart (le_refl _) (run'.inv proper hstart) step'
      obtain ⟨rfl, rfl⟩ := ih run' (by simpa using same)
      rw [step] at step'
      exact Prod.mk.inj (Option.some.inj (Option.some.inj step'))

end

section
variable {edges : List Edge} {useLatency : Bool} {k k' : Int} {A : List Path}
  {c : KShortestSolver.Candidates} {start dest : String}

/-- What is answered once the run has found the paths `A`. -/
def answer (A : List Path) : List PathInfo :=
  (Sort.exchangeSort Path.cost A).map fun p => ⟨p.hops, p.cost, 0⟩

/-- Two ways from `A` to `C`, where the nearer of the two nodes before `C` lies on
the cheaper one. -/
def detour : List Edge :=
  [⟨"A", "B", 1, 0, 0⟩, ⟨"B", "C", 1, 0, 0⟩, ⟨"A", "D", 2, 0, 0⟩, ⟨"D", "C", 9, 0, 0⟩]

/-- The labels of the nodes `A`, `B`, `C` and `D`. -/
def labelled (a b c d : ℚ) (v : String) : ℚ :=
  if v = "A" then a else if v = "B" then b else if v = "C" then c else d

end

end SkyAccel.Routing
