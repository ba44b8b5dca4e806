import Mathlib

/-!
# Binary heaps in the style of Go's `container/heap`

The algorithms run against an `Interface` (length, comparison, swap, and push
and pop at the end), as the Go package does. `slice` is the interface of a
plain slice ordered by a key, and `Refines` says that another implementation
shows the same slice.

* `push_perm`, `pop_perm`, `remove_perm`: no element is lost or duplicated;
* `push_ordered`, `pop_ordered`, `remove_spec`: the order of parents and children is kept,
  `pop` answers an element of least key and `remove` the one at its position;
* `push_keeps`, `pop_keeps`, `remove_keeps`: what an implementation keeps through swaps it
  keeps through the operations;
* `Refines.heap_push`, `Refines.heap_pop`, `Refines.heap_remove`: the operations show
  the same slice.
-/

namespace SkyAccel.Heap

structure Interface (S α : Type) where
  len : S → Nat
  less : S → Nat → Nat → Bool
  swap : S → Nat → Nat → S
  push : S → α → S
  pop : S → Option (α × S)

section Algorithms
variable {S α : Type} (I : Interface S α)

/-- The loop of `up`. The parent of a position is smaller, so `j + 1` rounds suffice. -/
def upN : Nat → S → Nat → S
  | 0, h, _ => h
  | fuel + 1, h, j =>
    let i := (j - 1) / 2
    if i = j ∨ I.less h j i = false then h else upN fuel (I.swap h i j) i

def up (h : S) (j : Nat) : S := upN I (j + 1) h j

/-- The smaller child of a position whose first child is `j₁`. -/
def child (h : S) (j₁ n : Nat) : Nat :=
  if j₁ + 1 < n ∧ I.less h (j₁ + 1) j₁ = true then j₁ + 1 else j₁

/-- The loop of `down`, with the position it stops at. -/
def downN : Nat → S → Nat → Nat → S × Nat
  | 0, h, i, _ => (h, i)
  | fuel + 1, h, i, n =>
    if n ≤ 2 * i + 1 then (h, i)
    else
      let j := child I h (2 * i + 1) n
      if I.less h j i = false then (h, i) else downN fuel (I.swap h i j) j n

/-- Whether the element moved is the second answer. -/
def down (h : S) (i n : Nat) : S × Bool :=
  let r := downN I n h i n
  (r.1, decide (i < r.2))

def push (h : S) (x : α) : S :=
  let h' := I.push h x
  up I h' (I.len h' - 1)

/-- `none` stands for the index panic on an empty heap. -/
def pop (h : S) : Option (α × S) :=
  if I.len h = 0 then none
  else
    let n := I.len h - 1
    I.pop (down I (I.swap h 0 n) 0 n).1

/-- `none` stands for the index panic on a position outside the heap. -/
def remove (h : S) (i : Int) : Option (α × S) :=
  if i < 0 ∨ (I.len h : Int) ≤ i then none
  else
    let n := I.len h - 1
    if n = i.toNat then I.pop h
    else
      let r := down I (I.swap h i.toNat n) i.toNat n
      I.pop (if r.2 then r.1 else up I r.1 i.toNat)

/-- `J` is what `I` does on a part of its state. -/
structure Refines {T : Type} (J : Interface T α) (view : S → T) : Prop where
  len : ∀ h, I.len h = J.len (view h)
  less : ∀ h i j, I.less h i j = J.less (view h) i j
  swap : ∀ h i j, view (I.swap h i j) = J.swap (view h) i j
  push : ∀ h x, view (I.push h x) = J.push (view h) x
  pop : ∀ h, (I.pop h).map (Prod.map id view) = J.pop (view h)

section
variable {I} {T : Type} {J : Interface T α} {view : S → T}

theorem Refines.upN (r : Refines I J view) (fuel : Nat) (h : S) (j : Nat) :
    view (Heap.upN I fuel h j) = Heap.upN J fuel (view h) j := by
  induction fuel generalizing h j with
  | zero => rfl
  | succ fuel ih =>
    simp only [Heap.upN, ← r.less]
    split
    · rfl
    · rw [ih, r.swap]

theorem Refines.downN (r : Refines I J view) (fuel : Nat) (h : S) (i n : Nat) :
    Prod.map view id (Heap.downN I fuel h i n) = Heap.downN J fuel (view h) i n := by
  induction fuel generalizing h i with
  | zero => rfl
  | succ fuel ih =>
    have same : child J (view h) (2 * i + 1) n = child I h (2 * i + 1) n := by
      simp only [child, r.less]
    simp only [Heap.downN, same, ← r.less]
    split
    · rfl
    · split
      · rfl
      · rw [ih, r.swap]

theorem Refines.down (r : Refines I J view) (h : S) (i n : Nat) :
    Heap.down J (view h) i n = (view (Heap.down I h i n).1, (Heap.down I h i n).2) := by
  simp only [Heap.down, ← r.downN, Prod.map_fst, Prod.map_snd, id_eq]

theorem Refines.heap_push (r : Refines I J view) (h : S) (x : α) :
    view (Heap.push I h x) = Heap.push J (view h) x := by
  simp only [Heap.push, up, r.upN, r.len, r.push]

theorem Refines.heap_pop (r : Refines I J view) (h : S) :
    (Heap.pop I h).map (Prod.map id view) = Heap.pop J (view h) := by
  unfold Heap.pop
  rw [r.len]
  split
  · rfl
  · simp only [r.pop, ← r.swap, r.down]

theorem Refines.heap_remove (r : Refines I J view) (h : S) (i : Int) :
    (Heap.remove I h i).map (Prod.map id view) = Heap.remove J (view h) i := by
  unfold Heap.remove
  rw [r.len]
  split
  · rfl
  · simp only
    split
    · exact r.pop h
    · simp only [r.pop, ← r.swap, r.down]
      split
      · rfl
      · rw [up, up, r.upN]

end

/-! ## What swaps keep, the operations keep -/

section
variable {I} {P : S → Prop} (swap : ∀ h i j, P h → P (I.swap h i j))
include swap

theorem upN_keeps (fuel : Nat) {h : S} (j : Nat) (start : P h) : P (upN I fuel h j) := by
  induction fuel generalizing h j with
  | zero => exact start
  | succ fuel ih =>
    simp only [upN]
    split
    · exact start
    · exact ih _ (swap _ _ _ start)

theorem downN_keeps (fuel : Nat) {h : S} (i n : Nat) (start : P h) : P (downN I fuel h i n).1 := by
  induction fuel generalizing h i with
  | zero => exact start
  | succ fuel ih =>
    simp only [downN]
    split
    · exact start
    · split
      · exact start
      · exact ih _ (swap _ _ _ start)

theorem push_keeps {h : S} {x : α} (start : P (I.push h x)) : P (push I h x) :=
  upN_keeps swap _ _ start

theorem pop_keeps {h h' : S} {x : α} (start : P h) (popped : pop I h = some (x, h')) :
    ∃ h₁, P h₁ ∧ I.pop h₁ = some (x, h') := by
  unfold pop at popped
  split at popped
  · cases popped
  · exact ⟨_, downN_keeps swap _ _ _ (swap _ _ _ start), popped⟩

theorem remove_keeps {h h' : S} {x : α} {i : Int} (start : P h)
    (removed : remove I h i = some (x, h')) : ∃ h₁, P h₁ ∧ I.pop h₁ = some (x, h') := by
  unfold remove at removed
  split at removed
  · cases removed
  · dsimp only at removed
    split at removed
    · exact ⟨h, start, removed⟩
    · refine ⟨_, ?_, removed⟩
      have sifted := downN_keeps swap (I.len h - 1) i.toNat (I.len h - 1)
        (swap _ i.toNat (I.len h - 1) start)
      split
      · exact sifted
      · exact upN_keeps swap _ _ sifted

end

end Algorithms

/-! ## A slice ordered by a key -/

section Slice
variable {α K : Type} [LinearOrder K]

def swapAt (l : List α) (i j : Nat) : List α :=
  match l[i]?, l[j]? with
  | some a, some b => (l.set i b).set j a
  | _, _ => l

def lessAt (key : α → K) (l : List α) (i j : Nat) : Bool :=
  match l[i]?, l[j]? with
  | some a, some b => decide (key a < key b)
  | _, _ => false

def slice (key : α → K) : Interface (List α) α where
  len := List.length
  less := lessAt key
  swap := swapAt
  push l x := l ++ [x]
  pop l := l.getLast?.map fun x => (x, l.dropLast)

@[simp] theorem slice_len (key : α → K) (l : List α) : (slice key).len l = l.length := rfl

@[simp] theorem slice_less (key : α → K) (l : List α) (i j : Nat) :
    (slice key).less l i j = lessAt key l i j := rfl

@[simp] theorem slice_swap (key : α → K) (l : List α) (i j : Nat) :
    (slice key).swap l i j = swapAt l i j := rfl

@[simp] theorem slice_push (key : α → K) (l : List α) (x : α) :
    (slice key).push l x = l ++ [x] := rfl

@[simp] theorem slice_pop (key : α → K) (l : List α) (x : α) :
    (slice key).pop (l ++ [x]) = some (x, l) := by
  simp [slice]

theorem swapAt_eq {l : List α} {i j : Nat} (hi : i < l.length) (hj : j < l.length) :
    swapAt l i j = (l.set i l[j]).set j l[i] := by
  simp [swapAt, hi, hj]

theorem swapAt_perm (l : List α) (i j : Nat) : (swapAt l i j).Perm l := by
  by_cases hi : i < l.length
  · by_cases hj : j < l.length
    · rw [swapAt_eq hi hj]; exact List.set_set_perm hi hj
    · simp [swapAt, List.getElem?_eq_none (Nat.le_of_not_lt hj)]
  · simp [swapAt, List.getElem?_eq_none (Nat.le_of_not_lt hi)]

@[simp] theorem swapAt_length (l : List α) (i j : Nat) : (swapAt l i j).length = l.length :=
  (swapAt_perm l i j).length_eq

theorem swapAt_getElem? {l : List α} {i j : Nat} (hi : i < l.length) (hj : j < l.length)
    (m : Nat) : (swapAt l i j)[m]? = if m = j then l[i]? else if m = i then l[j]? else l[m]? := by
  rw [swapAt_eq hi hj]
  simp only [List.getElem?_set, List.length_set]
  by_cases h1 : m = j
  · subst h1; simp [hi, hj]
  · by_cases h2 : m = i
    · subst h2; simp [h1, Ne.symm h1, hi, hj]
    · simp [h1, h2, Ne.symm h1, Ne.symm h2]

/-- The key at `i` is at most the key at `j`, where both positions are in the slice. -/
def Le (key : α → K) (l : List α) (i j : Nat) : Prop :=
  ∀ a b, l[i]? = some a → l[j]? = some b → key a ≤ key b

theorem Le.refl (key : α → K) (l : List α) (i : Nat) : Le key l i i := by
  intro a b ha hb
  rw [ha] at hb
  rw [Option.some.inj hb]

theorem Le.trans {key : α → K} {l : List α} {i j m : Nat} (hj : j < l.length)
    (h : Le key l i j) (h' : Le key l j m) : Le key l i m := by
  intro a b ha hb
  have hm : l[j]? = some l[j] := List.getElem?_eq_getElem hj
  exact le_trans (h a _ ha hm) (h' _ b hm hb)

theorem le_of_less {key : α → K} {l : List α} {i j : Nat} (h : lessAt key l i j = true) :
    Le key l i j := by
  intro a b ha hb
  simp only [lessAt, ha, hb, decide_eq_true_eq] at h
  exact le_of_lt h

theorem le_of_not_less {key : α → K} {l : List α} {i j : Nat} (h : lessAt key l i j = false) :
    Le key l j i := by
  intro b a hb ha
  simp only [lessAt, ha, hb, decide_eq_false_iff_not, not_lt] at h
  exact h

/-- Where position `m` of a slice with `i` and `j` swapped comes from. -/
def swapped (i j m : Nat) : Nat := if m = j then i else if m = i then j else m

theorem le_swapAt {key : α → K} {l : List α} {i j : Nat} (hi : i < l.length) (hj : j < l.length)
    (m n : Nat) : Le key (swapAt l i j) m n ↔ Le key l (swapped i j m) (swapped i j n) := by
  have at_ (m : Nat) : (swapAt l i j)[m]? = l[swapped i j m]? := by
    rw [swapAt_getElem? hi hj, swapped]
    split
    · rfl
    · split <;> rfl
  simp only [Le, at_]

/-- Every parent is at most its child. -/
def Ordered (key : α → K) (l : List α) : Prop :=
  ∀ i, i < l.length → Le key l ((i - 1) / 2) i

/-- What `up` needs: only the pair above `j` may be out of order, and the
children of `j` are at or above its parent. -/
structure UpOrder (key : α → K) (l : List α) (j : Nat) : Prop where
  others : ∀ i, i < l.length → i ≠ j → Le key l ((i - 1) / 2) i
  grand : ∀ c, c < l.length → 0 < c → (c - 1) / 2 = j → Le key l ((j - 1) / 2) c

theorem UpOrder.move {key : α → K} {l : List α} {j : Nat} (o : UpOrder key l j)
    (hj : j < l.length) (hne : (j - 1) / 2 ≠ j) (hlt : lessAt key l j ((j - 1) / 2) = true) :
    UpOrder key (swapAt l ((j - 1) / 2) j) ((j - 1) / 2) := by
  have hi : (j - 1) / 2 < l.length := by omega
  have below := le_of_less hlt
  constructor
  · intro m hm hmi
    rw [swapAt_length] at hm
    rw [le_swapAt hi hj]
    by_cases hmj : m = j
    · subst hmj; simpa [swapped, hne] using below
    · by_cases hpj : (m - 1) / 2 = j
      · simpa [swapped, hmj, hmi, hpj] using o.grand m hm (by omega) hpj
      · have above := o.others m hm hmj
        by_cases hpi : (m - 1) / 2 = (j - 1) / 2
        · rw [hpi] at above
          simpa [swapped, hmj, hmi, hpj, hpi, hne] using below.trans hi above
        · simpa [swapped, hmj, hmi, hpj, hpi] using above
  · intro c hc hc0 hci
    rw [swapAt_length] at hc
    rw [le_swapAt hi hj]
    have up : c ≠ j → Le key l ((j - 1) / 2) c := fun hcj => hci ▸ o.others c hc hcj
    have hci' : c ≠ (j - 1) / 2 := by omega
    by_cases hi0 : (j - 1) / 2 = 0
    · by_cases hcj : c = j
      · simpa [swapped, hi0, hcj, hne, show ¬ 0 = j by omega] using hi0 ▸ below
      · have := below.trans hi (up hcj)
        simpa [swapped, hi0, hcj, hci', show ¬ 0 = j by omega, show c ≠ 0 by omega] using this
    · have top : Le key l (((j - 1) / 2 - 1) / 2) ((j - 1) / 2) := o.others _ hi hne
      have h1 : ((j - 1) / 2 - 1) / 2 ≠ j := by omega
      have h2 : ((j - 1) / 2 - 1) / 2 ≠ (j - 1) / 2 := by omega
      by_cases hcj : c = j
      · simpa [swapped, hcj, h1, h2] using top
      · simpa [swapped, hcj, hci', h1, h2] using top.trans hi (up hcj)

theorem upN_spec (key : α → K) (fuel : Nat) (l : List α) (j : Nat) (hf : j < fuel)
    (hj : j < l.length) :
    (upN (slice key) fuel l j).Perm l ∧
      (UpOrder key l j → Ordered key (upN (slice key) fuel l j)) := by
  induction fuel generalizing l j with
  | zero => omega
  | succ fuel ih =>
    rw [upN]
    by_cases stop : (j - 1) / 2 = j ∨ lessAt key l j ((j - 1) / 2) = false
    · rw [slice_less, if_pos stop]
      refine ⟨List.Perm.refl _, fun o i hi => ?_⟩
      by_cases hij : i = j
      · subst hij
        rcases stop with same | notLess
        · rw [same]; exact Le.refl _ _ _
        · exact le_of_not_less notLess
      · exact o.others i hi hij
    · obtain ⟨hne, hless⟩ := not_or.mp stop
      rw [slice_less, if_neg stop]
      have hless : lessAt key l j ((j - 1) / 2) = true := by simpa using hless
      obtain ⟨perm, order⟩ := ih (swapAt l ((j - 1) / 2) j) ((j - 1) / 2) (by omega)
        (by rw [swapAt_length]; omega)
      exact ⟨perm.trans (swapAt_perm _ _ _), fun o => order (o.move hj hne hless)⟩

/-- What `down` needs of the first `n` elements: only the pairs below `i` may
be out of order, and the children of `i` are at or above its parent if it has one. -/
structure DownOrder (key : α → K) (l : List α) (i n : Nat) : Prop where
  others : ∀ m, m < n → (m - 1) / 2 ≠ i ∨ m = 0 → Le key l ((m - 1) / 2) m
  grand : 0 < i → ∀ c, c < n → 0 < c → (c - 1) / 2 = i → Le key l ((i - 1) / 2) c

theorem child_spec (key : α → K) (l : List α) (i n : Nat) (hn : 2 * i + 1 < n) :
    let j := child (slice key) l (2 * i + 1) n
    j < n ∧ i < j ∧ (j - 1) / 2 = i ∧ ∀ c, c < n → 0 < c → (c - 1) / 2 = i → Le key l j c := by
  dsimp only [child, slice]
  split
  · rename_i h
    refine ⟨h.1, by omega, by omega, fun c _ _ hc => ?_⟩
    have hc' : c = 2 * i + 1 ∨ c = 2 * i + 1 + 1 := by omega
    rcases hc' with rfl | rfl
    · exact le_of_less h.2
    · exact Le.refl _ _ _
  · rename_i h
    refine ⟨hn, by omega, by omega, fun c hcn _ hc => ?_⟩
    have hc' : c = 2 * i + 1 ∨ c = 2 * i + 1 + 1 := by omega
    rcases hc' with rfl | rfl
    · exact Le.refl _ _ _
    · exact le_of_not_less (by simpa [hcn] using h)

theorem DownOrder.move {key : α → K} {l : List α} {i n j : Nat} (o : DownOrder key l i n)
    (hn : n ≤ l.length) (hjn : j < n) (hij : i < j) (hp : (j - 1) / 2 = i)
    (least : ∀ c, c < n → 0 < c → (c - 1) / 2 = i → Le key l j c)
    (hlt : lessAt key l j i = true) : DownOrder key (swapAt l i j) j n := by
  have hi : i < l.length := by omega
  have hj : j < l.length := by omega
  have below := le_of_less hlt
  constructor
  · intro m hm hmj
    rw [le_swapAt hi hj]
    by_cases hm0 : m = 0
    · subst hm0; exact Le.refl _ _ _
    · have hmj : (m - 1) / 2 ≠ j := by omega
      by_cases h1 : m = j
      · subst h1; simpa [swapped, hp, show i ≠ m by omega] using below
      · by_cases h2 : m = i
        · subst h2
          have hpm : (m - 1) / 2 ≠ m := by omega
          simpa [swapped, h1, hmj, hpm] using o.grand (by omega) j hjn (by omega) hp
        · by_cases h3 : (m - 1) / 2 = i
          · simpa [swapped, h1, h2, h3, show i ≠ j by omega] using least m hm (by omega) h3
          · simpa [swapped, h1, h2, h3, hmj] using o.others m hm (.inl h3)
  · intro _ c hc hc0 hcj
    rw [le_swapAt hi hj]
    have h1 : c ≠ j := by omega
    have h2 : c ≠ i := by omega
    have := o.others c hc (.inl (by omega))
    simpa [swapped, h1, h2, hp, show i ≠ j by omega, hcj] using this

theorem downN_spec (key : α → K) (fuel : Nat) (l : List α) (i n : Nat) (hf : n ≤ fuel + i)
    (hn : n ≤ l.length) :
    (downN (slice key) fuel l i n).1.Perm l ∧
      (∀ m, n ≤ m → (downN (slice key) fuel l i n).1[m]? = l[m]?) ∧
      (DownOrder key l i n → ∀ m, m < n →
        Le key (downN (slice key) fuel l i n).1 ((m - 1) / 2) m) := by
  induction fuel generalizing l i with
  | zero =>
    refine ⟨List.Perm.refl _, fun _ _ => rfl, fun o m hm => o.others m hm ?_⟩
    omega
  | succ fuel ih =>
    rw [downN]
    split
    · rename_i stop
      refine ⟨List.Perm.refl _, fun _ _ => rfl, fun o m hm => o.others m hm (by omega)⟩
    · rename_i go
      have hgo : 2 * i + 1 < n := by omega
      obtain ⟨hjn, hij, hp, least⟩ := child_spec key l i n hgo
      set j := child (slice key) l (2 * i + 1) n
      dsimp only
      split
      · rename_i notLess
        refine ⟨List.Perm.refl _, fun _ _ => rfl, fun o m hm => ?_⟩
        by_cases h : (m - 1) / 2 = i ∧ m ≠ 0
        · rw [h.1]
          exact (le_of_not_less notLess).trans (lt_of_lt_of_le hjn hn) (least m hm (by omega) h.1)
        · exact o.others m hm (by omega)
      · rename_i hless
        have hless : lessAt key l j i = true := by simpa [slice] using hless
        obtain ⟨perm, same, order⟩ := ih (swapAt l i j) j (by omega) (by rw [swapAt_length]; omega)
        refine ⟨perm.trans (swapAt_perm _ _ _), fun m hm => ?_, fun o => ?_⟩
        · rw [slice_swap, same m hm, swapAt_getElem? (by omega) (by omega)]
          simp [show m ≠ j by omega, show m ≠ i by omega]
        · exact order (o.move hn hjn hij hp least hless)

/-- The root of an ordered slice has the least key. -/
theorem root_least {key : α → K} {l : List α} (o : Ordered key l) (i : Nat)
    (hi : i < l.length) : Le key l 0 i := by
  induction i using Nat.strongRecOn with
  | ind i ih =>
    by_cases hi0 : i = 0
    · subst hi0; exact Le.refl _ _ _
    · exact (ih ((i - 1) / 2) (by omega) (by omega)).trans (by omega) (o i hi)

theorem push_spec (key : α → K) (l : List α) (x : α) :
    (push (slice key) l x).Perm (x :: l) ∧
      (Ordered key l → Ordered key (push (slice key) l x)) := by
  have hlen : (l ++ [x]).length - 1 = l.length := by simp
  simp only [push, up, slice_push, slice_len, hlen]
  obtain ⟨perm, order⟩ := upN_spec key (l.length + 1) (l ++ [x]) l.length (by omega) (by simp)
  refine ⟨perm.trans (List.perm_append_singleton x l), fun o => order ⟨?_, ?_⟩⟩
  · intro i hi hne a b ha hb
    have hi' : i < l.length := by simp at hi; omega
    rw [List.getElem?_append_left (by omega)] at ha
    rw [List.getElem?_append_left hi'] at hb
    exact o i hi' a b ha hb
  · intro c hc hc0 hcl
    simp at hc
    omega

@[simp] theorem push_nil (key : α → K) (x : α) : push (slice key) [] x = [x] := by
  simp [push, up, upN]

theorem push_perm (key : α → K) (l : List α) (x : α) :
    (push (slice key) l x).Perm (x :: l) := (push_spec key l x).1

theorem push_ordered {key : α → K} {l : List α} (o : Ordered key l) (x : α) :
    Ordered key (push (slice key) l x) := (push_spec key l x).2 o

@[simp] theorem pop_nil (key : α → K) : pop (slice key) [] = none := rfl

theorem ordered_nil (key : α → K) : Ordered key ([] : List α) := by
  intro i hi
  simp at hi

theorem pop_spec (key : α → K) (l : List α) (hl : l ≠ []) :
    ∃ x l', pop (slice key) l = some (x, l') ∧ l.Perm (x :: l') ∧
      (Ordered key l → Ordered key l' ∧ ∀ y ∈ l', key x ≤ key y) := by
  have hpos : 0 < l.length := List.length_pos_iff.mpr hl
  obtain ⟨n, hn⟩ : ∃ n, l.length = n + 1 := ⟨l.length - 1, by omega⟩
  obtain ⟨perm, same, order⟩ := downN_spec key n (swapAt l 0 n) 0 n (by omega)
    (by rw [swapAt_length]; omega)
  have run : pop (slice key) l =
      (slice key).pop (downN (slice key) n (swapAt l 0 n) 0 n).1 := by
    simp [pop, down, hn]
  set l₂ := (downN (slice key) n (swapAt l 0 n) 0 n).1
  have len₂ : l₂.length = n + 1 := by rw [perm.length_eq, swapAt_length, hn]
  have last : l₂[n]? = some l[0] := by
    rw [same n (by omega), swapAt_getElem? hpos (by omega)]
    simp [List.getElem?_eq_getElem hpos]
  obtain ⟨l', x, hl₂⟩ : ∃ l' x, l₂ = l' ++ [x] :=
    List.eq_nil_or_concat' l₂ |>.resolve_left (by intro h; simp [h] at len₂)
  have len' : l'.length = n := by simpa [hl₂] using len₂
  have hx : x = l[0] := by
    rw [hl₂, ← len', List.getElem?_concat_length] at last
    exact Option.some.inj last
  have hperm : l.Perm (x :: l') := by
    refine ((List.perm_append_singleton x l').symm.trans ?_).symm
    rw [← hl₂]
    exact perm.trans (swapAt_perm l 0 n)
  refine ⟨x, l', by rw [run, hl₂, slice_pop], hperm, fun o => ⟨?_, ?_⟩⟩
  · have start : DownOrder key (swapAt l 0 n) 0 n := by
      refine ⟨fun m hm hm0 => ?_, fun h => absurd h (lt_irrefl 0)⟩
      by_cases h0 : m = 0
      · subst h0; exact Le.refl _ _ _
      · rw [le_swapAt hpos (by omega)]
        have hp : (m - 1) / 2 ≠ 0 := by omega
        simpa [swapped, h0, hp, show m ≠ n by omega, show (m - 1) / 2 ≠ n by omega]
          using o m (by omega)
    intro i hi a b ha hb
    apply order start i (by omega) a b
    · rw [hl₂, List.getElem?_append_left (by omega)]; exact ha
    · rw [hl₂, List.getElem?_append_left hi]; exact hb
  · intro y hy
    have hy' : y ∈ l := hperm.mem_iff.mpr (List.mem_cons_of_mem x hy)
    obtain ⟨i, hi, rfl⟩ := List.mem_iff_getElem.mp hy'
    rw [hx]
    exact root_least o i hi _ _ (List.getElem?_eq_getElem hpos) (List.getElem?_eq_getElem hi)

theorem pop_eq_none {key : α → K} {l : List α} (h : pop (slice key) l = none) : l = [] := by
  by_contra hl
  obtain ⟨x, l', hp, _⟩ := pop_spec key l hl
  rw [h] at hp
  cases hp

theorem pop_perm {key : α → K} {l l' : List α} {x : α}
    (h : pop (slice key) l = some (x, l')) : l.Perm (x :: l') := by
  have hl : l ≠ [] := by rintro rfl; simp at h
  obtain ⟨y, m, hp, perm, _⟩ := pop_spec key l hl
  rw [h] at hp
  obtain ⟨rfl, rfl⟩ := Prod.mk.inj (Option.some.inj hp)
  exact perm

theorem pop_ordered {key : α → K} {l l' : List α} {x : α} (o : Ordered key l)
    (h : pop (slice key) l = some (x, l')) : Ordered key l' ∧ ∀ y ∈ l', key x ≤ key y := by
  have hl : l ≠ [] := by rintro rfl; simp at h
  obtain ⟨y, m, hp, _, order⟩ := pop_spec key l hl
  rw [h] at hp
  obtain ⟨rfl, rfl⟩ := Prod.mk.inj (Option.some.inj hp)
  exact order o

theorem slice_pop_perm {key : α → K} {l l' : List α} {x : α}
    (h : (slice key).pop l = some (x, l')) : l.Perm (x :: l') := by
  rcases List.eq_nil_or_concat' l with rfl | ⟨init, last, rfl⟩
  · cases h
  · rw [slice_pop] at h
    obtain ⟨rfl, rfl⟩ := Prod.mk.inj (Option.some.inj h)
    exact List.perm_append_singleton _ _

theorem remove_perm {key : α → K} {l l' : List α} {x : α} {i : Int}
    (h : remove (slice key) l i = some (x, l')) : l.Perm (x :: l') := by
  unfold remove at h
  have len : (slice key).len l = l.length := rfl
  split at h
  · cases h
  · rename_i inside
    dsimp only at h
    split at h
    · exact slice_pop_perm h
    · rw [len] at h inside
      have hi : i.toNat < l.length := by omega
      have sift := (downN_spec key (l.length - 1) (swapAt l i.toNat (l.length - 1)) i.toNat
        (l.length - 1) (by omega) (by rw [swapAt_length]; omega)).1
      have sifted : (down (slice key) (swapAt l i.toNat (l.length - 1)) i.toNat
          (l.length - 1)).1.Perm l := sift.trans (swapAt_perm _ _ _)
      refine List.Perm.trans ?_ (slice_pop_perm h)
      rw [slice_swap]
      split
      · exact sifted.symm
      · refine (List.Perm.trans ?_ sifted).symm
        exact (upN_spec key _ _ _ (by omega) (by rw [sifted.length_eq]; exact hi)).1

section
variable {key : α → K}

/-! ## Sifting the front of a slice -/

theorem swapAt_append {l : List α} {i j : Nat} (hi : i < l.length) (hj : j < l.length)
    (t : List α) : swapAt (l ++ t) i j = swapAt l i j ++ t := by
  simp [swapAt, List.getElem?_append_left, hi, hj, List.set_append_left]

theorem lessAt_append {l : List α} {i j : Nat} (hi : i < l.length) (hj : j < l.length)
    (t : List α) : lessAt key (l ++ t) i j = lessAt key l i j := by
  simp [lessAt, List.getElem?_append_left, hi, hj]

theorem upN_append (fuel : Nat) {l : List α} {j : Nat} (hj : j < l.length) (t : List α) :
    upN (slice key) fuel (l ++ t) j = upN (slice key) fuel l j ++ t := by
  induction fuel generalizing l j with
  | zero => rfl
  | succ fuel ih =>
    have hi : (j - 1) / 2 < l.length := by omega
    rw [upN, upN, slice_less, slice_less, lessAt_append hj hi]
    by_cases stop : (j - 1) / 2 = j ∨ lessAt key l j ((j - 1) / 2) = false
    · rw [if_pos stop, if_pos stop]
    · rw [if_neg stop, if_neg stop, slice_swap, slice_swap, swapAt_append hi hj]
      exact ih (by rw [swapAt_length]; exact hi)

theorem child_append {l : List α} {n : Nat} (hn : n ≤ l.length) (j : Nat) (t : List α) :
    child (slice key) (l ++ t) j n = child (slice key) l j n := by
  unfold child
  by_cases inside : j + 1 < n
  · rw [slice_less, slice_less, lessAt_append (by omega) (by omega)]
  · rw [if_neg fun two => inside two.1, if_neg fun two => inside two.1]

theorem downN_append (fuel : Nat) {l : List α} (i : Nat) {n : Nat} (hn : n ≤ l.length)
    (t : List α) : downN (slice key) fuel (l ++ t) i n =
      ((downN (slice key) fuel l i n).1 ++ t, (downN (slice key) fuel l i n).2) := by
  induction fuel generalizing l i with
  | zero => rfl
  | succ fuel ih =>
    rw [downN, downN]
    by_cases leaf : n ≤ 2 * i + 1
    · rw [if_pos leaf, if_pos leaf]
    · obtain ⟨hjn, hij, -⟩ := child_spec key l i n (by omega)
      rw [if_neg leaf, if_neg leaf, child_append hn]
      dsimp only
      rw [slice_less, slice_less, lessAt_append (by omega) (by omega)]
      by_cases stop : lessAt key l (child (slice key) l (2 * i + 1) n) i = false
      · rw [if_pos stop, if_pos stop]
      · rw [if_neg stop, if_neg stop, slice_swap, slice_swap, swapAt_append (by omega) (by omega)]
        exact ih _ (by rw [swapAt_length]; exact hn)

theorem swapAt_last {init : List α} {last : α} {i : Nat} (hi : i < init.length) :
    swapAt (init ++ [last]) i init.length = init.set i last ++ [init[i]] := by
  simp [swapAt, List.getElem?_append_left, hi, List.set_append_left, List.set_append_right]

/-- What `remove` does at the position that it fills. -/
def sift (key : α → K) (l : List α) (i : Nat) : List α :=
  let r := down (slice key) l i l.length
  if r.2 then r.1 else up (slice key) r.1 i

theorem remove_concat {init : List α} {last : α} {i : Nat} (hi : i < init.length) :
    remove (slice key) (init ++ [last]) i = some (init[i], sift key (init.set i last) i) := by
  have inside : ¬ ((i : Int) < 0 ∨ ((init ++ [last]).length : Int) ≤ i) := by
    rw [List.length_append]
    omega
  have length : (init.set i last).length = init.length := List.length_set
  have sifted := (downN_spec key init.length (init.set i last) i init.length (by omega)
    (le_of_eq length.symm)).1.length_eq
  rw [remove, slice_len, if_neg inside]
  simp only [List.length_append, List.length_singleton, Nat.add_sub_cancel, Int.toNat_natCast,
    if_neg (Nat.ne_of_gt hi), slice_swap, swapAt_last hi, sift, down,
    downN_append _ _ (le_of_eq length.symm), length]
  by_cases moved : i < (downN (slice key) init.length (init.set i last) i init.length).2
  · rw [if_pos (decide_eq_true moved), if_pos (decide_eq_true moved), slice_pop]
  · rw [if_neg (by simpa using moved), if_neg (by simpa using moved), up, up,
      upN_append _ (by omega), slice_pop]

theorem Ordered.upOrder {l : List α} (o : Ordered key l) {i : Nat} (hi : i < l.length) :
    UpOrder key l i :=
  ⟨fun m hm _ => o m hm, fun c hc _ hci => (o i hi).trans hi (hci ▸ o c hc)⟩

/-- Overwriting position `i` of an ordered slice leaves the pairs apart from it in order, and
the children of `i` at or above its parent. -/
theorem Ordered.set {l : List α} (o : Ordered key l) {i : Nat} (hi : i < l.length) (x : α) :
    (∀ m, m < l.length → m ≠ i → (m - 1) / 2 ≠ i → Le key (l.set i x) ((m - 1) / 2) m) ∧
      (0 < i → ∀ c, c < l.length → (c - 1) / 2 = i → Le key (l.set i x) ((i - 1) / 2) c) := by
  have apart : ∀ {m n}, m ≠ i → n ≠ i → Le key l m n → Le key (l.set i x) m n := by
    intro m n hm hn le a b ha hb
    rw [List.getElem?_set_ne (Ne.symm hm)] at ha
    rw [List.getElem?_set_ne (Ne.symm hn)] at hb
    exact le a b ha hb
  refine ⟨fun m hm hmi hpi => apart hpi hmi (o m hm), fun pos c hc hci => ?_⟩
  exact apart (by omega) (by omega) ((o i hi).trans hi (hci ▸ o c hc))

/-- An element that is not above its children stays. -/
theorem downN_still (fuel : Nat) {l : List α} {i n : Nat}
    (least : ∀ c, c < n → 0 < c → (c - 1) / 2 = i → lessAt key l c i = false) :
    downN (slice key) fuel l i n = (l, i) := by
  cases fuel with
  | zero => rfl
  | succ fuel =>
    rw [downN]
    split
    · rfl
    · obtain ⟨hjn, hij, hp, -⟩ := child_spec key l i n (by omega)
      dsimp only
      rw [slice_less, if_pos (least _ hjn (by omega) hp)]

/-- An element put anywhere into an ordered slice is sifted to its place. -/
theorem sift_ordered {l : List α} {i : Nat} (o : Ordered key l) (hi : i < l.length) (x : α) :
    Ordered key (sift key (l.set i x) i) := by
  have length : (l.set i x).length = l.length := List.length_set
  obtain ⟨others, grand⟩ := o.set hi x
  obtain ⟨perm, -, order⟩ := downN_spec key l.length (l.set i x) i l.length (by omega)
    (le_of_eq length.symm)
  simp only [sift, down, length]
  by_cases above : Le key (l.set i x) ((i - 1) / 2) i
  · -- not below its parent: it sinks, and where it does not move everything is in order
    have ordered : Ordered key (downN (slice key) l.length (l.set i x) i l.length).1 := by
      rw [Ordered, perm.length_eq, length]
      refine order ⟨fun m hm free => ?_, fun pos c hc _ => grand pos c hc⟩
      by_cases hmi : m = i
      · exact hmi ▸ above
      · by_cases zero : m = 0
        · subst zero
          exact Le.refl _ _ _
        · exact others m hm hmi (free.resolve_right zero)
    have inside : i < (downN (slice key) l.length (l.set i x) i l.length).1.length := by
      rw [perm.length_eq, length]
      exact hi
    split_ifs
    · exact ordered
    · exact (upN_spec key _ _ _ (Nat.lt_succ_self i) inside).2 (ordered.upOrder inside)
  · -- below its parent: its children are above both, so it stays and then rises
    have pos : 0 < i := Nat.pos_of_ne_zero fun zero => above (by subst zero; exact Le.refl _ _ _)
    obtain ⟨a, ha, less⟩ : ∃ a, (l.set i x)[(i - 1) / 2]? = some a ∧ key x < key a := by
      simp only [Le, not_forall, not_le] at above
      obtain ⟨a, b, ha, hb, less⟩ := above
      rw [List.getElem?_set_self hi] at hb
      exact ⟨a, ha, Option.some.inj hb ▸ less⟩
    have children : ∀ c, c < l.length → (c - 1) / 2 = i → ∀ b, (l.set i x)[c]? = some b →
        key x ≤ key b := fun c hc hci b hb => (less.trans_le (grand pos c hc hci a b ha hb)).le
    have still : downN (slice key) l.length (l.set i x) i l.length = (l.set i x, i) := by
      refine downN_still _ fun c hc _ hci => ?_
      have hb : (l.set i x)[c]? = some _ := List.getElem?_eq_getElem (length.symm ▸ hc)
      simp only [lessAt, hb, List.getElem?_set_self hi, decide_eq_false_iff_not, not_lt]
      exact children c hc hci _ hb
    rw [still, if_neg (by simp)]
    refine (upN_spec key _ _ _ (Nat.lt_succ_self i) (by rw [length]; exact hi)).2 ⟨?_, ?_⟩
    · intro m hm hmi
      rw [length] at hm
      by_cases hpi : (m - 1) / 2 = i
      · intro p b hp hb
        rw [hpi, List.getElem?_set_self hi] at hp
        exact Option.some.inj hp ▸ children m hm hpi b hb
      · exact others m hm hmi hpi
    · intro c hc _ hci
      exact grand pos c (length ▸ hc) hci

/-- `remove` takes out the element at its position. -/
theorem remove_spec (key : α → K) {l : List α} {i : Nat} (hi : i < l.length) :
    ∃ l', remove (slice key) l i = some (l[i], l') ∧ l.Perm (l[i] :: l') ∧
      (Ordered key l → Ordered key l') := by
  obtain ⟨init, last, rfl⟩ := (List.eq_nil_or_concat' l).resolve_left (by rintro rfl; cases hi)
  have front : Ordered key (init ++ [last]) → Ordered key init := by
    intro o m hm a b ha hb
    refine o m (by rw [List.length_append]; omega) a b ?_ ?_
    · rw [List.getElem?_append_left (by omega)]
      exact ha
    · rw [List.getElem?_append_left hm]
      exact hb
  rw [List.length_append, List.length_singleton] at hi
  by_cases inner : i < init.length
  · refine ⟨_, ?_, ?_, fun o => sift_ordered (front o) inner last⟩
    · rw [List.getElem_append_left inner]
      exact remove_concat inner
    · exact remove_perm ((List.getElem_append_left inner).symm ▸ remove_concat inner)
  · obtain rfl : i = init.length := by omega
    have taken : remove (slice key) (init ++ [last]) (init.length : Int) = some (last, init) := by
      simp [remove]
    refine ⟨init, ?_, ?_, front⟩
    · simpa using taken
    · simp

end

end Slice

end SkyAccel.Heap
