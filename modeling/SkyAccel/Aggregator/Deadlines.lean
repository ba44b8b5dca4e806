import SkyAccel.Aggregator.Worker

/-!
# The heap of deadlines

Every item of a worker's heap knows its position, an item that was taken out has position
-1, and no parent is due after its child. `container/heap` keeps this (`MinHeap.Valid`)
through pushes, pops and removals in any order, so `checkTimeout` takes exactly what is due.
-/

namespace SkyAccel.Aggregator

open scoped List

namespace MinHeap

/-- Of the `n` items made so far, those in the heap know their positions. -/
structure Indexed (n : Nat) (h : MinHeap) : Prop where
  known : ∀ item ∈ h.items, item.id < n
  position : ∀ (i : Nat) item, h.items[i]? = some item → h.index item.id = i
  away : ∀ id < n, (∀ item ∈ h.items, item.id ≠ id) → h.index id = -1

structure Valid (n : Nat) (h : MinHeap) : Prop extends Indexed n h where
  order : Heap.Ordered HeapItem.deadline h.items

section
variable {n : Nat} {h h' : MinHeap} {item : HeapItem}

/-! ## Positions -/

theorem Indexed.inj (v : h.Indexed n) {i j : Nat} {a b : HeapItem} (ha : h.items[i]? = some a)
    (hb : h.items[j]? = some b) (same : a.id = b.id) : i = j := by
  have hi := v.position i a ha
  rw [same, v.position j b hb] at hi
  exact (Int.natCast_inj.mp hi).symm

theorem Indexed.ids_nodup (v : h.Indexed n) : (h.items.map HeapItem.id).Nodup := by
  rw [List.nodup_iff_getElem?_ne_getElem?]
  intro i j less inside same
  rw [List.length_map] at inside
  have hi := List.getElem?_eq_getElem (less.trans inside)
  have hj := List.getElem?_eq_getElem inside
  rw [List.getElem?_map, List.getElem?_map, hi, hj] at same
  exact absurd (v.inj hi hj (Option.some.inj same)) (Nat.ne_of_lt less)

theorem Indexed.setIndex (v : h.Indexed n) (i : Nat) : h.setIndex i = h := by
  unfold MinHeap.setIndex
  split
  · rename_i item hi
    rw [← v.position i item hi, Function.update_eq_self]
  · rfl

theorem swap_of_inside {i j : Nat} {a b : HeapItem} (ha : h.items[i]? = some a)
    (hb : h.items[j]? = some b) : minHeap.swap h i j = ⟨Heap.swapAt h.items i j,
      Function.update (Function.update h.index b.id i) a.id j⟩ := by
  obtain ⟨hi, -⟩ := List.getElem?_eq_some_iff.mp ha
  obtain ⟨hj, -⟩ := List.getElem?_eq_some_iff.mp hb
  have at_i : (Heap.swapAt h.items i j)[i]? = some b := by
    rw [Heap.swapAt_getElem? hi hj]
    split
    · rename_i same
      rw [same]
      exact hb
    · rw [if_pos rfl]
      exact hb
  have at_j : (Heap.swapAt h.items i j)[j]? = some a := by
    rw [Heap.swapAt_getElem? hi hj, if_pos rfl]
    exact ha
  simp only [minHeap, MinHeap.setIndex, at_i, at_j]

theorem swap_of_outside (v : h.Indexed n) {i j : Nat}
    (outside : ¬ (i < h.items.length ∧ j < h.items.length)) : minHeap.swap h i j = h := by
  have same : Heap.swapAt h.items i j = h.items := by
    unfold Heap.swapAt
    split
    · rename_i ha hb
      have hi := (List.getElem?_eq_some_iff.mp ha).1
      exact absurd ⟨hi, (List.getElem?_eq_some_iff.mp hb).1⟩ outside
    · rfl
  simp only [minHeap, same, v.setIndex]

theorem Indexed.swap (v : h.Indexed n) (i j : Nat) : (minHeap.swap h i j).Indexed n := by
  by_cases inside : i < h.items.length ∧ j < h.items.length
  · obtain ⟨hi, hj⟩ := inside
    have ha := List.getElem?_eq_getElem hi
    have hb := List.getElem?_eq_getElem hj
    have perm := Heap.swapAt_perm h.items i j
    rw [swap_of_inside ha hb]
    refine ⟨fun item there => v.known item (perm.mem_iff.mp there), ?_, ?_⟩
    · intro m item hm
      dsimp only at hm ⊢
      rw [Heap.swapAt_getElem? hi hj] at hm
      split at hm
      · rename_i same
        obtain rfl := Option.some.inj (ha.symm.trans hm)
        rw [same, Function.update_self]
      · rename_i ne
        have apart : item.id ≠ h.items[i].id := by
          intro same
          split at hm
          · exact ne ((v.inj hm ha same).symm ▸ ‹m = i›)
          · exact ‹¬ m = i› (v.inj hm ha same)
        rw [Function.update_of_ne apart]
        split at hm
        · rename_i same
          obtain rfl := Option.some.inj (hb.symm.trans hm)
          rw [same, Function.update_self]
        · rw [Function.update_of_ne fun same => ne (v.inj hm hb same)]
          exact v.position m item hm
    · intro id less others
      have gone : ∀ item ∈ h.items, item.id ≠ id := fun item there =>
        others item (perm.mem_iff.mpr there)
      dsimp only
      rw [Function.update_of_ne (Ne.symm (gone _ (List.getElem_mem hi))),
        Function.update_of_ne (Ne.symm (gone _ (List.getElem_mem hj)))]
      exact v.away id less gone
  · rw [swap_of_outside v inside]
    exact v

theorem Indexed.push (v : h.Indexed n) (b : Nat) (deadline : Int) :
    (Heap.push minHeap h ⟨n, b, deadline⟩).Indexed (n + 1) := by
  refine Heap.push_keeps (fun h i j v => v.swap i j) ⟨?_, ?_, ?_⟩
  · intro item there
    rcases List.mem_append.mp there with there | there
    · exact Nat.lt_succ_of_lt (v.known item there)
    · rw [List.mem_singleton.mp there]
      exact Nat.lt_succ_self n
  · intro i item hi
    dsimp only [minHeap] at hi ⊢
    rw [List.getElem?_append] at hi
    split at hi
    · have old := v.known item (List.mem_of_getElem? hi)
      rw [Function.update_of_ne (Nat.ne_of_lt old)]
      exact v.position i item hi
    · obtain ⟨last, rfl⟩ := List.getElem?_eq_some_iff.mp hi
      have : i = h.items.length := by
        rw [List.length_singleton] at last
        omega
      simp [this]
  · intro id less others
    have ne : id ≠ n := fun same => others _ (List.mem_append_right _ List.mem_cons_self) same.symm
    dsimp only [minHeap]
    rw [Function.update_of_ne ne]
    exact v.away id (by omega) fun item there => others item (List.mem_append_left _ there)

/-- What the heap's own `Pop` takes off the end. -/
theorem Indexed.take (v : h.Indexed n) (taken : minHeap.pop h = some (item, h')) :
    h'.Indexed n := by
  rcases List.eq_nil_or_concat' h.items with none | ⟨init, last, items⟩
  · simp [minHeap, none] at taken
  · simp only [minHeap, items, List.getLast?_concat, Option.map_some, List.dropLast_concat,
      Option.some.injEq, Prod.mk.injEq] at taken
    obtain ⟨rfl, rfl⟩ := taken
    have old : ∀ {i : Nat} {item}, init[i]? = some item → h.items[i]? = some item := by
      intro i item hi
      rw [items, List.getElem?_append_left (List.getElem?_eq_some_iff.mp hi).1]
      exact hi
    have end_ : h.items[init.length]? = some last := by
      rw [items, List.getElem?_concat_length]
    refine ⟨fun item there => v.known item ?_, fun i item hi => ?_, fun id less others => ?_⟩
    · rw [items]
      exact List.mem_append_left _ there
    · have inside := (List.getElem?_eq_some_iff.mp hi).1
      dsimp only at inside ⊢
      rw [Function.update_of_ne fun same => Nat.ne_of_lt inside (v.inj (old hi) end_ same)]
      exact v.position i item (old hi)
    · dsimp only
      by_cases same : id = last.id
      · rw [same, Function.update_self]
      · rw [Function.update_of_ne same]
        refine v.away id less fun item there => ?_
        rw [items] at there
        rcases List.mem_append.mp there with there | there
        · exact others item there
        · rw [List.mem_singleton.mp there]
          exact Ne.symm same

theorem Indexed.pop (v : h.Indexed n) (popped : Heap.pop minHeap h = some (item, h')) :
    h'.Indexed n := by
  obtain ⟨h₁, v₁, taken⟩ := Heap.pop_keeps (fun h i j v => v.swap i j) v popped
  exact v₁.take taken

theorem Indexed.remove (v : h.Indexed n) {i : Int}
    (removed : Heap.remove minHeap h i = some (item, h')) : h'.Indexed n := by
  obtain ⟨h₁, v₁, taken⟩ := Heap.remove_keeps (fun h i j v => v.swap i j) v removed
  exact v₁.take taken

/-! ## The operations -/

theorem Valid.push (v : h.Valid n) (b : Nat) (deadline : Int) :
    (Heap.push minHeap h ⟨n, b, deadline⟩).Valid (n + 1) := by
  refine ⟨v.toIndexed.push b deadline, ?_⟩
  rw [minHeap_refines.heap_push]
  exact Heap.push_ordered v.order _

/-- `Pop` answers an item that is due no later than any that stays. -/
theorem Valid.pop (v : h.Valid n) (popped : Heap.pop minHeap h = some (item, h')) :
    h'.Valid n ∧ ∀ other ∈ h'.items, item.deadline ≤ other.deadline := by
  have view := minHeap_refines.heap_pop h
  rw [popped] at view
  obtain ⟨order, least⟩ := Heap.pop_ordered v.order view.symm
  exact ⟨⟨v.toIndexed.pop popped, order⟩, least⟩

/-- `Remove` at a position of the heap takes out the item there. -/
theorem Valid.remove (v : h.Valid n) {i : Nat} (hi : h.items[i]? = some item) :
    ∃ h', Heap.remove minHeap h i = some (item, h') ∧ h'.Valid n ∧
      h.items ~ item :: h'.items := by
  obtain ⟨inside, rfl⟩ := List.getElem?_eq_some_iff.mp hi
  obtain ⟨l, taken, perm, order⟩ := Heap.remove_spec HeapItem.deadline inside
  have view := minHeap_refines.heap_remove h i
  rw [taken] at view
  obtain ⟨⟨x, h'⟩, removed, same⟩ := Option.map_eq_some_iff.mp view
  obtain ⟨rfl, rfl⟩ := Prod.mk.inj same
  exact ⟨h', removed, ⟨v.toIndexed.remove removed, order v.order⟩, perm⟩

theorem inside_of_remove {i : Int} (removed : Heap.remove minHeap h i = some (item, h')) :
    ∃ j : Nat, i = j ∧ j < h.items.length := by
  unfold Heap.remove at removed
  split at removed
  · cases removed
  · rename_i inside
    have len : minHeap.len h = h.items.length := rfl
    rw [len] at inside
    exact ⟨i.toNat, by omega, by omega⟩

theorem Valid.of_remove (v : h.Valid n) {i : Int}
    (removed : Heap.remove minHeap h i = some (item, h')) : h'.Valid n := by
  obtain ⟨j, rfl, inside⟩ := inside_of_remove removed
  obtain ⟨h₁, removed', v', -⟩ := v.remove (List.getElem?_eq_getElem inside)
  obtain ⟨-, rfl⟩ := Prod.mk.inj (Option.some.inj (removed.symm.trans removed'))
  exact v'

theorem valid_nil : (⟨[], fun _ => 0⟩ : MinHeap).Valid 0 where
  known := nofun
  position := nofun
  away := nofun
  order := Heap.ordered_nil _

end

end MinHeap

/-! ## What is due -/

/-- The items popped are those that are due, in the order of their deadlines and each once,
and the others stay. -/
structure TakesDue (now : Int) (h : MinHeap) (r : MinHeap × List HeapItem) : Prop where
  due : r.2 ~ h.items.filter (·.deadline ≤ now)
  rest : r.1.items ~ h.items.filter (now < ·.deadline)
  sorted : r.2.Pairwise (·.deadline ≤ ·.deadline)
  once : r.2.Nodup

theorem popExpired_valid {n : Nat} (now : Int) (fuel : Nat) {h : MinHeap} (v : h.Valid n) :
    (popExpired now fuel h).1.Valid n := by
  induction fuel generalizing h with
  | zero => exact v
  | succ fuel ih =>
    rw [popExpired]
    split
    · exact v
    · split
      · exact v
      · split
        · exact v
        · rename_i popped
          exact ih (v.pop popped).1

/-- What is popped is due, in order, and what stays is not. -/
theorem popExpired_spec {n : Nat} (now : Int) {fuel : Nat} {h : MinHeap} (v : h.Valid n)
    (enough : h.items.length ≤ fuel) :
    (popExpired now fuel h).2.Pairwise (·.deadline ≤ ·.deadline) ∧
      (∀ item ∈ (popExpired now fuel h).2, item.deadline ≤ now) ∧
      ∀ item ∈ (popExpired now fuel h).1.items, now < item.deadline := by
  induction fuel generalizing h with
  | zero =>
    have none : h.items = [] := List.eq_nil_of_length_eq_zero (Nat.le_zero.mp enough)
    simp [popExpired, none]
  | succ fuel ih =>
    rw [popExpired]
    split
    · rename_i none
      have none : h.items = [] :=
        List.eq_nil_of_length_eq_zero (Nat.le_zero.mp (List.getElem?_eq_none_iff.mp none))
      simp [none]
    · rename_i b root
      split
      · rename_i later
        refine ⟨.nil, by simp, fun item there => ?_⟩
        obtain ⟨i, hi⟩ := List.getElem?_of_mem there
        exact later.trans_le
          (Heap.root_least v.order i (List.getElem?_eq_some_iff.mp hi).1 b item root hi)
      · rename_i due
        split
        · rename_i none
          have view := minHeap_refines.heap_pop h
          rw [none] at view
          simp [Heap.pop_eq_none view.symm] at root
        · rename_i popItem h' popped
          obtain ⟨v', least⟩ := v.pop popped
          have perm := pop_items popped
          have size := perm.length_eq
          rw [List.length_cons] at size
          obtain ⟨sorted, before, rest⟩ := ih v' (by omega)
          have first : popItem.deadline ≤ now := by
            rcases List.mem_cons.mp (perm.mem_iff.mp (List.mem_of_getElem? root)) with rfl | there
            · exact not_lt.mp due
            · exact (least b there).trans (not_lt.mp due)
          refine ⟨.cons (fun item there => least item ?_) sorted, ?_, rest⟩
          · exact (popExpired_perm now fuel h').mem_iff.mpr (List.mem_append_right _ there)
          · intro item there
            rcases List.mem_cons.mp there with rfl | there
            · exact first
            · exact before item there

theorem popExpired_takesDue {n : Nat} (now : Int) {h : MinHeap} (v : h.Valid n) :
    TakesDue now h (popExpired now h.items.length h) := by
  obtain ⟨sorted, due, rest⟩ := popExpired_spec now v le_rfl
  have perm := popExpired_perm now h.items.length h
  have once : h.items.Nodup := v.ids_nodup.of_map
  refine ⟨(List.Perm.trans ?_ (perm.symm.filter _)), (List.Perm.trans ?_ (perm.symm.filter _)),
    sorted, (List.nodup_append.mp (perm.nodup_iff.mp once)).2.1⟩
  · rw [List.filter_append, List.filter_eq_nil_iff.mpr fun item there => by
      simpa using rest item there, List.filter_eq_self.mpr fun item there => by
      simpa using due item there, List.nil_append]
  · rw [List.filter_append, List.filter_eq_self.mpr fun item there => by
      simpa using rest item there, List.filter_eq_nil_iff.mpr fun item there => by
      simpa using due item there, List.append_nil]

/-! ## Any sequence of operations -/

/-- A heap, and the number of items made for it. -/
structure Deadlines where
  heap : MinHeap
  items : Nat

inductive HeapOp
  | push (batch : Nat) (deadline : Int)
  | pop
  | remove (i : Int)

namespace Deadlines

def init : Deadlines := ⟨⟨[], fun _ => 0⟩, 0⟩

/-- `heap.Push` of a new item, `heap.Pop` and `heap.Remove`; `none` stands for a panic. -/
def next (d : Deadlines) : HeapOp → Option Deadlines
  | .push batch deadline =>
    some ⟨Heap.push minHeap d.heap ⟨d.items, batch, deadline⟩, d.items + 1⟩
  | .pop => (Heap.pop minHeap d.heap).map fun r => ⟨r.2, d.items⟩
  | .remove i => (Heap.remove minHeap d.heap i).map fun r => ⟨r.2, d.items⟩

/-- Only an empty heap cannot be popped, and only positions of the heap can be removed. -/
def InRange (d : Deadlines) : HeapOp → Prop
  | .push _ _ => True
  | .pop => d.heap.items ≠ []
  | .remove i => 0 ≤ i ∧ i < d.heap.items.length

variable {d d' : Deadlines} {op : HeapOp}

theorem valid_next (v : d.heap.Valid d.items) (moved : d.next op = some d') :
    d'.heap.Valid d'.items := by
  cases op with
  | push batch deadline =>
    obtain rfl := Option.some.inj moved
    exact v.push batch deadline
  | pop =>
    obtain ⟨r, popped, rfl⟩ := Option.map_eq_some_iff.mp moved
    exact (v.pop popped).1
  | remove i =>
    obtain ⟨r, removed, rfl⟩ := Option.map_eq_some_iff.mp moved
    exact v.of_remove removed

theorem next_isSome (v : d.heap.Valid d.items) (inRange : d.InRange op) : (d.next op).isSome := by
  cases op with
  | push => rfl
  | pop =>
    have view := minHeap_refines.heap_pop d.heap
    cases popped : Heap.pop minHeap d.heap with
    | none =>
      rw [popped] at view
      exact absurd (Heap.pop_eq_none view.symm) inRange
    | some r => simp [next, popped]
  | remove i =>
    obtain ⟨low, high⟩ := inRange
    obtain ⟨j, rfl⟩ := Int.eq_ofNat_of_zero_le low
    have inside : j < d.heap.items.length := by omega
    obtain ⟨h', removed, -⟩ := v.remove (List.getElem?_eq_getElem inside)
    simp [next, removed]

/-- After any pushes, pops and removals every item's index is its position and the heap is
ordered by deadline, the next operation does not panic, and `checkTimeout` takes exactly
what is due. -/
theorem takes_due (run : Run (Moves next) (fun _ _ => True) init d) :
    (∀ (i : Nat) item, d.heap.items[i]? = some item → d.heap.index item.id = i) ∧
      Heap.Ordered HeapItem.deadline d.heap.items ∧ (∀ op, d.InRange op → (d.next op).isSome) ∧
      ∀ now, TakesDue now d.heap (popExpired now d.heap.items.length d.heap) := by
  have v : d.heap.Valid d.items := run.invariant (P := fun d => d.heap.Valid d.items)
    (fun _ _ _ v _ moved => valid_next v moved) MinHeap.valid_nil
  exact ⟨v.position, v.order, fun _ => next_isSome v, fun now => popExpired_takesDue now v⟩

/-- Five pushes, a removal from the middle and a pop. -/
theorem takes_due_after_removal :
    ∃ d, Run (Moves next) (fun _ _ => True) init d ∧
      d.heap.items.map HeapItem.deadline = [3, 9, 7] ∧
      (popExpired 7 d.heap.items.length d.heap).2.map HeapItem.deadline = [3, 7] ∧
      TakesDue 7 d.heap (popExpired 7 d.heap.items.length d.heap) := by
  have ran : ∃ d, Run (Moves next) (fun _ _ => True) init d ∧
      d.heap.items.map HeapItem.deadline = [3, 9, 7] ∧
      (popExpired 7 d.heap.items.length d.heap).2.map HeapItem.deadline = [3, 7] := by
    apply Run.exists_of_checked
      [.push 0 5, .push 1 9, .push 2 1, .push 3 7, .push 4 3, .remove 2, .pop]
    decide +kernel
  obtain ⟨d, run, items, popped⟩ := ran
  exact ⟨d, run, items, popped, (takes_due run).2.2.2 7⟩

end Deadlines

/-! ## The heap of a worker -/

section
variable {cfg : Config} {s s' : State}

theorem valid_removeItems {mem : List Batch} {n : Nat} {h h' : MinHeap} {v : List Nat}
    (valid : h.Valid n) (removed : State.removeItems mem h v = some h') : h'.Valid n := by
  induction v generalizing h with
  | nil =>
    obtain rfl := Option.some.inj removed
    exact valid
  | cons b v ih =>
    rw [State.removeItems] at removed
    split at removed
    · exact ih valid removed
    · split at removed
      · cases removed
      · rename_i taken
        exact ih (valid.of_remove taken) removed

theorem valid_step (valid : s.heap.Valid s.items) {e : Event} (move : Step cfg s e s') :
    s'.heap.Valid s'.items := by
  cases move with
  | receive msg _ _ =>
    exact State.receive_elim (P := fun s => s.heap.Valid s.items) valid (fun _ _ _ => valid)
      (fun _ _ => valid) (fun _ _ _ => valid)
  | append _ _ _ =>
    exact State.append_elim (P := fun s => s.heap.Valid s.items) valid fun _ _ => valid
  | appendNew _ _ _ =>
    exact State.appendNew_elim (P := fun s => s.heap.Valid s.items) valid fun _ _ => valid
  | push now _ _ _ _ => exact valid.push _ _
  | expire now _ _ => exact popExpired_valid now _ valid
  | evict _ _ =>
    exact State.evict_elim (P := fun s => s.heap.Valid s.items) (fun _ => valid)
      fun heap removed => valid_removeItems valid removed
  | _ => exact valid

theorem valid_of_run {ok : State → Event → Prop} (run : Run (Step cfg) ok State.init s) :
    s.heap.Valid s.items :=
  run.invariant (P := fun s => s.heap.Valid s.items)
    (fun _ _ _ valid _ move => valid_step valid move) MinHeap.valid_nil

/-- Whatever its goroutines have done, the worker's `checkTimeout` takes exactly what is due. -/
theorem expire_takesDue {ok : State → Event → Prop} (run : Run (Step cfg) ok State.init s)
    (now : Int) : TakesDue now s.heap ((s.expire now).heap, (s.expire now).timer.expired) :=
  popExpired_takesDue now (valid_of_run run)

end

end SkyAccel.Aggregator
