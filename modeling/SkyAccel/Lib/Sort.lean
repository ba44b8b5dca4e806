import SkyAccel.Lib.Heap

/-!
# The exchange sort

Two nested loops that compare every pair of positions and swap the ones out of
order. `exchangeSort_perm` and `exchangeSort_sorted` are its specification, and
`checkedSort_eq` says that it never reads out of range.
-/

namespace SkyAccel.Sort

open Heap (Le lessAt swapAt swapped swapAt_length swapAt_perm le_swapAt le_of_less le_of_not_less)

variable {α K : Type} [LinearOrder K]

def exchange (key : α → K) (i : Nat) (l : List α) (j : Nat) : List α :=
  if lessAt key l j i = true then swapAt l i j else l

/-- The inner loop: `j` runs from `i + 1` to the end. -/
def exchangeFrom (key : α → K) (l : List α) (i : Nat) : List α :=
  (List.range' (i + 1) (l.length - (i + 1))).foldl (exchange key i) l

def exchangeSort (key : α → K) (l : List α) : List α :=
  (List.range (l.length - 1)).foldl (exchangeFrom key) l

theorem exchange_perm (key : α → K) (i : Nat) (l : List α) (j : Nat) :
    (exchange key i l j).Perm l := by
  unfold exchange
  split
  · exact swapAt_perm l i j
  · exact List.Perm.refl l

theorem foldl_perm {ι : Type} {f : List α → ι → List α} (hf : ∀ l i, (f l i).Perm l)
    (is : List ι) (l : List α) : (is.foldl f l).Perm l := by
  induction is generalizing l with
  | nil => exact List.Perm.refl l
  | cons i is ih => exact (ih (f l i)).trans (hf l i)

theorem exchangeFrom_perm (key : α → K) (l : List α) (i : Nat) : (exchangeFrom key l i).Perm l :=
  foldl_perm (exchange_perm key i) _ l

theorem exchangeSort_perm (key : α → K) (l : List α) : (exchangeSort key l).Perm l :=
  foldl_perm (exchangeFrom_perm key) _ l

/-- The first `i` positions are at most every later position. -/
def SortedUpTo (key : α → K) (l : List α) (i : Nat) : Prop :=
  ∀ a b, a < i → a < b → b < l.length → Le key l a b

/-- One comparison keeps the positions before `i` in place and makes position
`i` at most position `j`. -/
theorem exchange_step {key : α → K} {l : List α} {i j : Nat} (hij : i < j) (hj : j < l.length)
    (front : SortedUpTo key l i) (row : ∀ m, i < m → m < j → Le key l i m) :
    SortedUpTo key (exchange key i l j) i ∧
      ∀ m, i < m → m < j + 1 → Le key (exchange key i l j) i m := by
  have hi : i < l.length := by omega
  unfold exchange
  split
  · rename_i h
    have less := le_of_less h
    refine ⟨fun a b ha hab hb => ?_, fun m him hm => ?_⟩
    · rw [swapAt_length] at hb
      rw [le_swapAt hi hj]
      have ha' : swapped i j a = a := by simp [swapped, show a ≠ j by omega, show a ≠ i by omega]
      rw [ha']
      apply front a _ ha
      · unfold swapped; split <;> [omega; (split <;> omega)]
      · unfold swapped; split <;> [omega; (split <;> omega)]
    · rw [le_swapAt hi hj]
      have hii : swapped i j i = j := by simp [swapped, show i ≠ j by omega]
      rw [hii]
      by_cases hmj : m = j
      · subst hmj; simpa [swapped] using less
      · have hmm : swapped i j m = m := by simp [swapped, hmj, show m ≠ i by omega]
        rw [hmm]
        exact less.trans hi (row m him (by omega))
  · rename_i h
    refine ⟨front, fun m him hm => ?_⟩
    by_cases hmj : m = j
    · subst hmj; exact le_of_not_less (by simpa using h)
    · exact row m him (by omega)

theorem exchange_row (key : α → K) (i : Nat) (n j : Nat) (l : List α) (hij : i < j)
    (hn : j + n ≤ l.length) (front : SortedUpTo key l i)
    (row : ∀ m, i < m → m < j → Le key l i m) :
    SortedUpTo key ((List.range' j n).foldl (exchange key i) l) i ∧
      ∀ m, i < m → m < j + n → Le key ((List.range' j n).foldl (exchange key i) l) i m := by
  induction n generalizing j l with
  | zero => exact ⟨front, row⟩
  | succ n ih =>
    obtain ⟨front', row'⟩ := exchange_step hij (by omega) front row
    have hlen := (exchange_perm key i l j).length_eq
    obtain ⟨f, r⟩ := ih (j + 1) (exchange key i l j) (by omega) (by omega) front' row'
    simp only [List.range'_succ, List.foldl_cons]
    exact ⟨f, fun m him hm => r m him (by omega)⟩

theorem exchangeFrom_sorted {key : α → K} {l : List α} {i : Nat} (hi : i < l.length)
    (front : SortedUpTo key l i) : SortedUpTo key (exchangeFrom key l i) (i + 1) := by
  obtain ⟨f, r⟩ := exchange_row key i (l.length - (i + 1)) (i + 1) l (by omega) (by omega) front
    (fun m h h' => by omega)
  intro a b ha hab hb
  by_cases hai : a = i
  · subst hai
    rw [(exchangeFrom_perm key l a).length_eq] at hb
    exact r b hab (by omega)
  · exact f a b (by omega) hab hb

theorem exchangeSort_upTo (key : α → K) (l : List α) (n : Nat) (hn : n ≤ l.length - 1) :
    SortedUpTo key ((List.range n).foldl (exchangeFrom key) l) n := by
  induction n with
  | zero => intro a b ha; omega
  | succ n ih =>
    rw [List.range_succ, List.foldl_append, List.foldl_cons, List.foldl_nil]
    apply exchangeFrom_sorted _ (ih (by omega))
    rw [(foldl_perm (exchangeFrom_perm key) _ l).length_eq]
    omega

theorem exchangeSort_sorted (key : α → K) (l : List α) :
    (exchangeSort key l).Pairwise fun a b => key a ≤ key b := by
  have upTo := exchangeSort_upTo key l (l.length - 1) (le_refl _)
  have hlen := (exchangeSort_perm key l).length_eq
  rw [List.pairwise_iff_getElem]
  intro i j hi hj hij
  exact upTo i j (by omega) hij hj _ _ (List.getElem?_eq_getElem hi) (List.getElem?_eq_getElem hj)

/-! ## Reading in range -/

/-- `exchange` with reads that fail out of range. -/
def checkedExchange (key : α → K) (i : Nat) (l : List α) (j : Nat) : Option (List α) := do
  let x ← l[i]?
  let y ← l[j]?
  if key y < key x then some ((l.set i y).set j x) else some l

def checkedSort (key : α → K) (l : List α) : Option (List α) :=
  (List.range (l.length - 1)).foldlM (fun l i =>
    (List.range' (i + 1) (l.length - (i + 1))).foldlM (checkedExchange key i) l) l

theorem checkedExchange_eq (key : α → K) {l : List α} {i j : Nat} (hi : i < l.length)
    (hj : j < l.length) : checkedExchange key i l j = some (exchange key i l j) := by
  simp only [checkedExchange, exchange, lessAt, swapAt, List.getElem?_eq_getElem hi,
    List.getElem?_eq_getElem hj, Option.bind_eq_bind, Option.bind_some, decide_eq_true_eq]
  split
  · rfl
  · rfl

/-- A loop over a list of fixed length none of whose turns fails. -/
theorem foldlM_eq_some {ι : Type} {f : List α → ι → Option (List α)} {g : List α → ι → List α}
    {n : Nat} (kept : ∀ l i, (g l i).length = l.length) (is : List ι) (l : List α)
    (turn : ∀ i ∈ is, ∀ l : List α, l.length = n → f l i = some (g l i)) (start : l.length = n) :
    is.foldlM f l = some (is.foldl g l) := by
  induction is generalizing l with
  | nil => rfl
  | cons i is ih =>
    simp only [List.foldlM_cons, List.foldl_cons, turn i List.mem_cons_self l start,
      Option.bind_eq_bind, Option.bind_some]
    apply ih (g l i)
    · exact fun i' mem => turn i' (List.mem_cons_of_mem _ mem)
    · exact (kept l i).trans start

theorem checkedSort_eq (key : α → K) (l : List α) :
    checkedSort key l = some (exchangeSort key l) := by
  apply foldlM_eq_some (fun l i => (exchangeFrom_perm key l i).length_eq) _ _ _ rfl
  intro i outer l' length
  apply foldlM_eq_some (fun l j => (exchange_perm key i l j).length_eq) _ _ _ rfl
  intro j inner l'' length'
  have hi : i < l.length - 1 := List.mem_range.mp outer
  obtain ⟨-, hj⟩ := List.mem_range'_1.mp inner
  exact checkedExchange_eq key (by omega) (by omega)

end SkyAccel.Sort
