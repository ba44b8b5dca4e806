import SkyAccel.Aggregator.Deadlines
import SkyAccel.Aggregator.ExactlyOnce

/-!
# What an eviction takes out of the heap

`evictStaleBatches` removes the item of each batch of a key at the index that the item
carries. A batch that an eviction can still reach has its item in the heap, where the index
is its position, or among those that `checkTimeout` has popped and not yet flushed
(`Linked`). There the index is -1, and `heap.Remove` panics: an eviction is safe exactly when
no batch of its key has such an item (`removals_live_iff`).
-/

namespace SkyAccel.Aggregator

open scoped List

/-- The item that a batch points to. -/
def heapItemAt (mem : List Batch) (b : Nat) : Option HeapItem := mem[b]?.bind Batch.heapItem

/-- Each `heap.Remove` for the batches of a list is given a position of the heap, and the
item of the batch stands there. -/
def LiveRemovals (mem : List Batch) : MinHeap → List Nat → Prop
  | _, [] => True
  | h, b :: v =>
    match heapItemAt mem b with
    | none => LiveRemovals mem h v
    | some item =>
      (∃ i : Nat, h.index item.id = i ∧ h.items[i]? = some item ∧ item.batch = b) ∧
        match Heap.remove minHeap h (h.index item.id) with
        | none => False
        | some (_, h') => LiveRemovals mem h' v

/-- A batch of the list has an item that was popped and whose batch is not yet flushed. -/
def HasPopped (mem : List Batch) (expired : List HeapItem) (v : List Nat) : Prop :=
  ∃ b ∈ v, ∃ item ∈ heapItemAt mem b, item ∈ expired

instance (mem : List Batch) (expired : List HeapItem) (v : List Nat) :
    Decidable (HasPopped mem expired v) :=
  inferInstanceAs (Decidable (∃ b ∈ v, ∃ item ∈ heapItemAt mem b, item ∈ expired))

/-! ## One eviction -/

section
variable {mem : List Batch} {n : Nat} {h : MinHeap} {expired : List HeapItem} {b : Nat}
  {v : List Nat} {item : HeapItem}

theorem liveRemovals_none (none : heapItemAt mem b = none) :
    LiveRemovals mem h (b :: v) ↔ LiveRemovals mem h v := by
  rw [LiveRemovals, none]

theorem removeItems_none (none : heapItemAt mem b = none) :
    State.removeItems mem h (b :: v) = State.removeItems mem h v := by
  rw [heapItemAt] at none
  rw [State.removeItems, none]

/-- An item in the heap is the one that is taken out. -/
theorem removals_inside (valid : h.Valid n) (has : heapItemAt mem b = some item)
    (own : item.batch = b) (inside : item ∈ h.items) :
    ∃ h₁ : MinHeap, h₁.Valid n ∧ h.items ~ item :: h₁.items ∧
      (LiveRemovals mem h (b :: v) ↔ LiveRemovals mem h₁ v) ∧
      State.removeItems mem h (b :: v) = State.removeItems mem h₁ v := by
  obtain ⟨i, hi⟩ := List.getElem?_of_mem inside
  have index := valid.position i item hi
  obtain ⟨h₁, removed, valid₁, perm⟩ := valid.remove hi
  refine ⟨h₁, valid₁, perm, ?_, ?_⟩
  · simp only [LiveRemovals, has, index, removed]
    exact and_iff_right ⟨i, rfl, hi, own⟩
  · rw [heapItemAt] at has
    simp only [State.removeItems, has, index, removed]

theorem removals_away (has : heapItemAt mem b = some item) (away : h.index item.id = -1) :
    ¬ LiveRemovals mem h (b :: v) ∧ State.removeItems mem h (b :: v) = none := by
  have panics : Heap.remove minHeap h (-1) = none := if_pos (.inl (by decide))
  constructor
  · simp [LiveRemovals, has, away, panics]
  · rw [heapItemAt] at has
    simp only [State.removeItems, has, away, panics]

theorem hasPopped_cons :
    HasPopped mem expired (b :: v) ↔
      (∃ item ∈ heapItemAt mem b, item ∈ expired) ∨ HasPopped mem expired v := by
  simp [HasPopped]

/-- An item that was popped carries no position of the heap. -/
theorem index_popped (valid : h.Valid n) (known : item.id < n)
    (ids : ((h.items ++ expired).map HeapItem.id).Nodup) (popped : item ∈ expired) :
    h.index item.id = -1 := by
  rw [List.map_append] at ids
  have apart := (List.nodup_append.mp ids).2.2
  refine valid.away _ known fun other there same => ?_
  exact apart _ (List.mem_map_of_mem there) _ (List.mem_map_of_mem popped) same

/-- The items of batches that have none among the popped ones are taken out, and no others. -/
structure Takes (mem : List Batch) (h : MinHeap) (v : List Nat) (h' : MinHeap) : Prop where
  live : LiveRemovals mem h v
  result : State.removeItems mem h v = some h'
  items : ∃ taken, h.items ~ taken ++ h'.items ∧
    ∀ item ∈ taken, item.batch ∈ v ∧ heapItemAt mem item.batch = some item

theorem Takes.skip {h' : MinHeap} (has : heapItemAt mem b = none) (takes : Takes mem h v h') :
    Takes mem h (b :: v) h' := by
  obtain ⟨taken, perm, batches⟩ := takes.items
  refine ⟨(liveRemovals_none has).mpr takes.live, (removeItems_none has).trans takes.result, taken,
    perm, fun item there => ?_⟩
  exact ⟨List.mem_cons_of_mem _ (batches item there).1, (batches item there).2⟩

theorem Takes.take {h₁ h' : MinHeap} (has : heapItemAt mem b = some item) (own : item.batch = b)
    (perm : h.items ~ item :: h₁.items)
    (live : LiveRemovals mem h (b :: v) ↔ LiveRemovals mem h₁ v)
    (result : State.removeItems mem h (b :: v) = State.removeItems mem h₁ v)
    (takes : Takes mem h₁ v h') : Takes mem h (b :: v) h' := by
  obtain ⟨taken, perm', batches⟩ := takes.items
  refine ⟨live.mpr takes.live, result.trans takes.result, item :: taken,
    perm.trans (perm'.cons item), fun x there => ?_⟩
  rcases List.mem_cons.mp there with rfl | there
  · rw [own]
    exact ⟨List.mem_cons_self, has⟩
  · exact ⟨List.mem_cons_of_mem _ (batches x there).1, (batches x there).2⟩

theorem removals (valid : h.Valid n) (known : ∀ item ∈ expired, item.id < n)
    (ids : ((h.items ++ expired).map HeapItem.id).Nodup) (once : v.Nodup)
    (own : ∀ b item, heapItemAt mem b = some item → item.batch = b)
    (reach : ∀ b ∈ v, ∀ item ∈ heapItemAt mem b, item ∈ h.items ++ expired) :
    (¬ HasPopped mem expired v ∧ ∃ h', Takes mem h v h') ∨
      (HasPopped mem expired v ∧ ¬ LiveRemovals mem h v ∧ State.removeItems mem h v = none) := by
  induction v generalizing h with
  | nil => exact .inl ⟨by simp [HasPopped], h, trivial, rfl, [], .refl _, nofun⟩
  | cons b v ih =>
    obtain ⟨fresh, once⟩ := List.nodup_cons.mp once
    have reach' : ∀ b ∈ v, ∀ item ∈ heapItemAt mem b, item ∈ h.items ++ expired := fun b hb =>
      reach b (List.mem_cons_of_mem _ hb)
    rw [hasPopped_cons]
    cases has : heapItemAt mem b with
    | none =>
      rw [removeItems_none has, liveRemovals_none has]
      rcases ih valid ids once reach' with ⟨calm, h', takes⟩ | ⟨popped, rest⟩
      · exact .inl ⟨by simpa using calm, h', takes.skip has⟩
      · exact .inr ⟨.inr popped, rest⟩
    | some item =>
      rcases List.mem_append.mp (reach b List.mem_cons_self item has) with inside | popped
      · have own' := own b item has
        obtain ⟨h₁, valid₁, perm, live, result⟩ := removals_inside (v := v) valid has own' inside
        have ids' : ((item :: (h₁.items ++ expired)).map HeapItem.id).Nodup :=
          ((perm.append_right expired).map _).nodup_iff.mp ids
        obtain ⟨apart, ids₁⟩ := List.nodup_cons.mp ids'
        have calm : item ∉ expired := fun popped =>
          apart (List.mem_map_of_mem (List.mem_append_right _ popped))
        -- the other batches have other items, which stay
        have reach₁ : ∀ b ∈ v, ∀ item ∈ heapItemAt mem b, item ∈ h₁.items ++ expired := by
          intro b' hb' item' has'
          rcases List.mem_append.mp (reach' b' hb' item' has') with there | there
          · rcases List.mem_cons.mp (perm.mem_iff.mp there) with rfl | there
            · exact absurd ((own b' item' has').symm.trans own' ▸ hb') fresh
            · exact List.mem_append_left _ there
          · exact List.mem_append_right _ there
        rw [live, result]
        rcases ih valid₁ ids₁ once reach₁ with ⟨rest, h', takes⟩ | ⟨popped, rest⟩
        · exact .inl ⟨by simpa [calm] using rest, h', takes.take has own' perm live result⟩
        · exact .inr ⟨.inr popped, rest⟩
      · exact .inr ⟨.inl ⟨item, rfl, popped⟩,
          removals_away has (index_popped valid (known item popped) ids popped)⟩

end

/-! ## What an eviction can reach -/

/-- The lists of a snapshot that `evictStaleBatches` is not yet done with. -/
def Evictor.lists : Evictor → List (String × List Nat)
  | .idle => []
  | .scanning _ todo => todo
  | .checking _ key v _ _ todo => (key, v) :: todo

/-- The batches of a list are distinct, are filed under their own routing key, and have
their items in the heap or among the popped ones. -/
structure Filed (s : State) (kv : String × List Nat) : Prop where
  once : kv.2.Nodup
  own : ∀ b ∈ kv.2, ∃ batch, s.mem[b]? = some batch ∧ batch.routingKey = kv.1
  timed : ∀ b ∈ kv.2, ∀ item ∈ heapItemAt s.mem b, item ∈ s.timers

structure Linked (s : State) : Prop where
  known : ∀ item ∈ s.timers, item.id < s.items
  ids : (s.timers.map HeapItem.id).Nodup
  own : ∀ b item, heapItemAt s.mem b = some item → item.batch = b
  pushed : ∀ t b item, s.handler = .pushed t b item →
    item.batch = b ∧ item ∈ s.timers ∧ heapItemAt s.mem b = none
  filed : ∀ kv ∈ s.batches ++ s.evictor.lists, Filed s kv
  keys : (s.batches.map Prod.fst).Nodup ∧ (s.evictor.lists.map Prod.fst).Nodup

section
variable {cfg : Config} {s s' : State} {b : Nat} {batch : Batch}

theorem heapItemAt_eq (hb : s.mem[b]? = some batch) : heapItemAt s.mem b = batch.heapItem := by
  rw [heapItemAt, hb, Option.bind_some]

theorem heapItemAt_set (hb : s.mem[b]? = some batch) (x : Batch) (b' : Nat) :
    heapItemAt (s.mem.set b x) b' = if b' = b then x.heapItem else heapItemAt s.mem b' := by
  rw [heapItemAt, Store.getElem?_set hb]
  split <;> rfl

/-- New batches have no items. -/
theorem heapItemAt_append {news : List Batch} (new : ∀ batch ∈ news, batch.heapItem = none)
    (b : Nat) : heapItemAt (s.mem ++ news) b = heapItemAt s.mem b := by
  unfold heapItemAt
  by_cases inside : b < s.mem.length
  · rw [List.getElem?_append_left inside]
  · have outside := Nat.not_lt.mp inside
    rw [List.getElem?_append_right outside, List.getElem?_eq_none outside, Option.bind_none]
    cases found : news[b - s.mem.length]? with
    | none => rfl
    | some batch => exact new batch (List.mem_of_getElem? found)

/-- The batches of `s` are still there, under the same routing keys. -/
def Routes (s s' : State) : Prop :=
  ∀ (b : Nat) batch, s.mem[b]? = some batch →
    ∃ batch', s'.mem[b]? = some batch' ∧ batch'.routingKey = batch.routingKey

theorem Routes.of_eq (mem : s'.mem = s.mem) : Routes s s' := by
  intro b batch hb
  exact ⟨batch, mem ▸ hb, rfl⟩

theorem Routes.of_set (hb : s.mem[b]? = some batch) {x : Batch} (mem : s'.mem = s.mem.set b x)
    (same : x.routingKey = batch.routingKey) : Routes s s' := by
  intro b' batch' hb'
  rw [mem, Store.getElem?_set hb]
  split
  · rename_i eq
    subst eq
    obtain rfl := Option.some.inj (hb.symm.trans hb')
    exact ⟨x, rfl, same⟩
  · exact ⟨batch', hb', rfl⟩

theorem Routes.of_append {news : List Batch} (mem : s'.mem = s.mem ++ news) : Routes s s' := by
  intro b batch hb
  refine ⟨batch, ?_, rfl⟩
  rw [mem, List.getElem?_append_left (Store.lt_of_some hb)]
  exact hb

theorem Filed.mono {kv : String × List Nat} (h : Filed s kv) (routes : Routes s s')
    (timed : ∀ b ∈ kv.2, ∀ item ∈ heapItemAt s'.mem b, item ∈ s'.timers) : Filed s' kv where
  once := h.once
  own := by
    intro b hb
    obtain ⟨batch, found, key⟩ := h.own b hb
    obtain ⟨batch', found', same⟩ := routes b batch found
    exact ⟨batch', found', same.trans key⟩
  timed := timed

/-- Steps that change neither items nor what points to them. -/
theorem Linked.mono (h : Linked s) (items : s'.items = s.items) (timers : s'.timers ~ s.timers)
    (mem : ∀ b, heapItemAt s'.mem b = heapItemAt s.mem b) (routes : Routes s s')
    (pushed : ∀ t b item, s'.handler = .pushed t b item → s.handler = .pushed t b item)
    (lists : ∀ kv ∈ s'.batches ++ s'.evictor.lists,
      kv ∈ s.batches ++ s.evictor.lists ∨ Filed s' kv)
    (keys : (s'.batches.map Prod.fst).Nodup ∧ (s'.evictor.lists.map Prod.fst).Nodup) :
    Linked s' where
  known := by
    rw [items]
    exact fun item there => h.known item (timers.mem_iff.mp there)
  ids := (timers.map _).nodup_iff.mpr h.ids
  own := by
    intro b item has
    exact h.own b item (mem b ▸ has)
  pushed := by
    intro t b item handler
    rw [mem, timers.mem_iff]
    exact h.pushed t b item (pushed t b item handler)
  filed := by
    intro kv there
    rcases lists kv there with there | new
    · refine (h.filed kv there).mono routes fun b hb item has => ?_
      rw [timers.mem_iff]
      exact (h.filed kv there).timed b hb item (mem b ▸ has)
    · exact new
  keys := keys

theorem Linked.still (h : Linked s) (mem : s'.mem = s.mem) (items : s'.items = s.items)
    (timers : s'.timers ~ s.timers) (batches : s'.batches = s.batches)
    (evictor : s'.evictor = s.evictor)
    (pushed : ∀ t b item, s'.handler = .pushed t b item → s.handler = .pushed t b item) :
    Linked s' := by
  refine h.mono items timers (fun b => by rw [mem]) (.of_eq mem) pushed ?_ ?_
  · rw [batches, evictor]
    exact fun kv => .inl
  · rw [batches, evictor]
    exact h.keys

/-! ## The sections of `handleMsg` -/

theorem Linked.received (h : Linked s) {msg : AggregatorMsg} (received : Received s msg s') :
    Linked s' := by
  cases received with
  | refused => exact h.still rfl rfl (.refl _) rfl rfl fun _ _ _ => id
  | urgent p => exact h.still rfl rfl (.refl _) rfl rfl fun _ _ _ => id
  | absent _ => exact h.still rfl rfl (.refl _) rfl rfl nofun
  | located _ => exact h.still rfl rfl (.refl _) rfl rfl nofun

/-- A list of new batches. -/
theorem filed_new {news : List Batch} {key : String} (mem : s'.mem = s.mem ++ news)
    (new : ∀ batch ∈ news, batch.heapItem = none ∧ batch.routingKey = key) {v : List Nat}
    (once : v.Nodup) (own : ∀ b ∈ v, s.mem.length ≤ b ∧ b < s.mem.length + news.length) :
    Filed s' (key, v) where
  once := once
  own := by
    intro b hb
    obtain ⟨low, high⟩ := own b hb
    have inside : b - s.mem.length < news.length := by omega
    refine ⟨_, ?_, (new _ (List.getElem_mem inside)).2⟩
    rw [mem, List.getElem?_append_right low]
    exact List.getElem?_eq_getElem inside
  timed := by
    intro b hb item has
    rw [mem, heapItemAt_append (fun batch hb => (new batch hb).1), heapItemAt,
      List.getElem?_eq_none (own b hb).1] at has
    cases has

theorem Linked.keys_putNew (h : Linked s) (key : String) (n : Nat) :
    ((s.putNew key n).map Prod.fst).Nodup := by
  unfold State.putNew
  split
  · exact h.keys.1
  · rename_i none
    refine List.nodup_cons.mpr ⟨fun again => ?_, h.keys.1⟩
    obtain ⟨kv, there, same⟩ := List.mem_map.mp again
    exact bne_iff_ne.mp (List.lookup_eq_none_iff.mp none kv there) same.symm

theorem Linked.createWith (h : Linked s) (t : Ticket) {news : List Batch}
    (new : ∀ batch ∈ news, batch.heapItem = none ∧ batch.routingKey = t.msg.routingKey) :
    Linked (s.createWith t news) := by
  refine h.mono rfl (.refl _) (heapItemAt_append fun batch hb => (new batch hb).1)
    (.of_append rfl) ?_ ?_ ⟨?_, h.keys.2⟩
  · intro t' b item pushed
    rcases s.createWith_handler t news with idle | ⟨b', -, located⟩
    · rw [idle] at pushed
      cases pushed
    · rw [located] at pushed
      cases pushed
  · intro kv there
    rcases List.mem_append.mp there with there | there
    · rcases mem_putNew there with there | rfl
      · exact .inl (List.mem_append_left _ there)
      · refine .inr (filed_new rfl new List.nodup_range' fun b hb => ?_)
        exact List.mem_range'_1.mp hb
    · exact .inl (List.mem_append_right _ there)
  · exact h.keys_putNew _ _

theorem Linked.filed_bList (h : Linked s) (key : String) : Filed s (key, s.bList key) := by
  unfold State.bList
  cases found : s.batches.lookup key with
  | none => exact ⟨List.nodup_nil, nofun, nofun⟩
  | some v => exact h.filed _ (List.mem_append_left _ (Store.mem_of_lookup found))

/-- One more batch at the end of a list. -/
theorem Filed.concat {key : String} {v : List Nat} (h : Filed s (key, v)) {new : Batch}
    (mem : s'.mem = s.mem ++ [new]) (timers : s'.timers = s.timers)
    (fresh : new.heapItem = none ∧ new.routingKey = key) :
    Filed s' (key, v ++ [s.mem.length]) := by
  have items : ∀ b, heapItemAt s'.mem b = heapItemAt s.mem b := by
    rw [mem]
    refine heapItemAt_append fun batch hb => ?_
    rw [List.mem_singleton.mp hb]
    exact fresh.1
  have front : Filed s' (key, v) := by
    refine h.mono (.of_append mem) fun b hb item has => ?_
    rw [timers]
    exact h.timed b hb item (items b ▸ has)
  have last : Filed s' (key, [s.mem.length]) := by
    refine filed_new mem (fun batch hb => ?_) (List.nodup_singleton _) fun b hb => ?_
    · rw [List.mem_singleton.mp hb]
      exact fresh
    · rw [List.mem_singleton.mp hb, List.length_singleton]
      omega
  refine ⟨?_, ?_, ?_⟩
  · refine List.nodup_append.mpr ⟨h.once, List.nodup_singleton _, ?_⟩
    rintro b hb _ hl rfl
    obtain ⟨batch, found, -⟩ := h.own b hb
    exact absurd (Store.lt_of_some found) (by rw [List.mem_singleton.mp hl]; exact lt_irrefl _)
  · intro b hb
    exact (List.mem_append.mp hb).elim (front.own b) (last.own b)
  · intro b hb
    exact (List.mem_append.mp hb).elim (front.timed b) (last.timed b)

theorem Linked.openWith (h : Linked s) (t : Ticket) {new : Batch}
    (fresh : new.heapItem = none ∧ new.routingKey = t.msg.routingKey) :
    Linked (s.openWith t new) := by
  refine h.mono rfl (.refl _) (heapItemAt_append ?_) (.of_append rfl) nofun ?_ ⟨?_, h.keys.2⟩
  · intro batch hb
    rw [List.mem_singleton.mp hb]
    exact fresh.1
  · intro kv there
    rcases List.mem_append.mp there with there | there
    · rcases List.mem_cons.mp there with rfl | there
      · exact .inr ((h.filed_bList _).concat rfl rfl fresh)
      · exact .inl (List.mem_append_left _ (List.mem_of_mem_filter there))
    · exact .inl (List.mem_append_right _ there)
  · refine List.nodup_cons.mpr ⟨?_, h.keys.1.sublist (List.filter_sublist.map _)⟩
    intro again
    obtain ⟨kv, there, same⟩ := List.mem_map.mp again
    exact of_decide_eq_true (List.mem_filter.mp there).2 same

theorem Linked.record (h : Linked s) {t : Ticket} {pkt : Tunnel.Packet}
    (hb : s.mem[b]? = some batch) :
    Linked { s with
      mem := s.mem.set b (batch.record pkt t)
      handler := .appended t b
      accepted := s.accepted ++ [t] } := by
  refine h.mono rfl (.refl _) (fun b' => ?_) (.of_set hb rfl rfl) nofun (fun kv => .inl) h.keys
  rw [heapItemAt_set hb]
  split
  · rename_i same
    rw [same, heapItemAt_eq hb]
    rfl
  · rfl

theorem Linked.push (h : Linked s) {t : Ticket} (hb : s.mem[b]? = some batch)
    (untimed : batch.heapItem = none) (now : Int) : Linked (s.push cfg t b now) := by
  have timers : (s.push cfg t b now).timers ~
      ⟨s.items, b, now + milliseconds cfg.batchTimeoutMs⟩ :: s.timers :=
    (push_items _ _).append_right s.timer.expired
  have more : ∀ item ∈ s.timers, item ∈ (s.push cfg t b now).timers := fun item there =>
    timers.mem_iff.mpr (List.mem_cons_of_mem _ there)
  refine ⟨?_, ?_, h.own, ?_, ?_, h.keys⟩
  · intro item there
    rcases List.mem_cons.mp (timers.mem_iff.mp there) with rfl | there
    · exact Nat.lt_succ_self _
    · exact Nat.lt_succ_of_lt (h.known item there)
  · refine (timers.map _).nodup_iff.mpr (List.nodup_cons.mpr ⟨?_, h.ids⟩)
    intro again
    obtain ⟨item, there, same⟩ := List.mem_map.mp again
    exact absurd (h.known item there) (by rw [same]; exact lt_irrefl _)
  · rintro t' b' item ⟨⟩
    exact ⟨rfl, timers.mem_iff.mpr List.mem_cons_self, (heapItemAt_eq hb).trans untimed⟩
  · intro kv there
    have old := h.filed kv there
    exact old.mono (.of_eq rfl) fun b hb item has => more item (old.timed b hb item has)

theorem Linked.finish (h : Linked s) {t : Ticket} {item : HeapItem}
    (pushed : s.handler = .pushed t b item) (hb : s.mem[b]? = some batch) :
    Linked (s.finish b batch item) := by
  obtain ⟨own, there, -⟩ := h.pushed t b item pushed
  have items : ∀ b', heapItemAt (s.finish b batch item).mem b' =
      if b' = b then some item else heapItemAt s.mem b' := heapItemAt_set hb _
  refine ⟨h.known, h.ids, ?_, nofun, ?_, h.keys⟩
  · intro b' item' has
    rw [items] at has
    split at has
    · rename_i same
      obtain rfl := Option.some.inj has
      exact own.trans same.symm
    · exact h.own b' item' has
  · intro kv listed
    have old := h.filed kv listed
    refine old.mono (.of_set hb rfl rfl) fun b' hb' item' has => ?_
    rw [items] at has
    split at has
    · obtain rfl := Option.some.inj has
      exact there
    · exact old.timed b' hb' item' has

/-! ## The sections of the other goroutines -/

theorem Linked.expire (h : Linked s) (idle : s.timer = .idle) (now : Int) :
    Linked (s.expire now) := by
  refine h.still rfl rfl ?_ rfl rfl fun _ _ _ => id
  rw [State.timers, State.timers, idle, Timer.expired, List.append_nil]
  exact (popExpired_perm now s.heap.items.length s.heap).symm

/-- The batch flushed gives up its item, and no other batch has that item. -/
theorem Linked.flushBatch (h : Linked s) {now : Int} {item : HeapItem} {rest : List HeapItem}
    {toSend : List SendInfo} (timer : s.timer = .flushing now (item :: rest) toSend)
    (free : s.handler.locked ≠ some item.batch) (hb : s.mem[item.batch]? = some batch) :
    Linked (s.flushBatch now item rest toSend batch) := by
  have timers : s.timers ~ item :: (s.flushBatch now item rest toSend batch).timers := by
    rw [State.timers, timer]
    exact List.perm_middle
  have items : ∀ b', heapItemAt (s.flushBatch now item rest toSend batch).mem b' =
      if b' = item.batch then none else heapItemAt s.mem b' := heapItemAt_set hb _
  have ids := List.nodup_cons.mp ((timers.map _).nodup_iff.mp h.ids)
  have stays : ∀ other ∈ s.timers, other.batch ≠ item.batch →
      other ∈ (s.flushBatch now item rest toSend batch).timers := by
    intro other there apart
    refine (List.mem_cons.mp (timers.mem_iff.mp there)).resolve_left ?_
    rintro rfl
    exact apart rfl
  refine ⟨fun other there => h.known other (timers.mem_iff.mpr (List.mem_cons_of_mem _ there)),
    ids.2, ?_, ?_, ?_, h.keys⟩
  · intro b' item' has
    rw [items] at has
    split at has
    · cases has
    · exact h.own b' item' has
  · intro t b' item' pushed
    obtain ⟨own, there, untimed⟩ := h.pushed t b' item' pushed
    have other : b' ≠ item.batch := by
      rintro rfl
      exact free (by rw [show s.handler = .pushed t item.batch item' from pushed]; rfl)
    rw [items, if_neg other]
    exact ⟨own, stays item' there (own ▸ other), untimed⟩
  · intro kv listed
    have old := h.filed kv listed
    refine old.mono (.of_set hb rfl rfl) fun b' hb' item' has => ?_
    rw [items] at has
    split at has
    · cases has
    · rename_i other
      exact stays item' (old.timed b' hb' item' has) (h.own b' item' has ▸ other)

section
variable {now : Int} {key : String} {v left : List Nat} {bDel : Bool}
  {todo : List (String × List Nat)}

theorem Linked.removals (h : Linked s) (valid : s.heap.Valid s.items)
    (checking : s.evictor = .checking now key v left bDel todo) :
    (¬ HasPopped s.mem s.timer.expired v ∧ ∃ heap, Takes s.mem s.heap v heap) ∨
      (HasPopped s.mem s.timer.expired v ∧ ¬ LiveRemovals s.mem s.heap v ∧
        State.removeItems s.mem s.heap v = none) := by
  have filed : Filed s (key, v) := by
    refine h.filed _ (List.mem_append_right _ ?_)
    rw [checking]
    exact List.mem_cons_self
  exact Aggregator.removals valid (fun item popped => h.known item (List.mem_append_right _ popped))
    h.ids filed.once h.own filed.timed

/-- A list under another key has none of the batches evicted. -/
theorem Filed.apart {kv : String × List Nat} (h : Filed s kv) (h' : Filed s (key, v))
    (other : kv.1 ≠ key) {b : Nat} (hb : b ∈ kv.2) : b ∉ v := by
  intro evicted
  obtain ⟨batch, found, own⟩ := h.own b hb
  obtain ⟨batch', found', own'⟩ := h'.own b evicted
  obtain rfl := Option.some.inj (found.symm.trans found')
  exact other (own.symm.trans own')

theorem Linked.evict (h : Linked s) (valid : s.heap.Valid s.items)
    (checking : s.evictor = .checking now key v [] true todo) :
    Linked (s.evict now key v todo) := by
  have here : (key, v) ∈ s.evictor.lists := by
    rw [checking]
    exact List.mem_cons_self
  have todos : ∀ kv ∈ todo, kv ∈ s.evictor.lists := by
    intro kv there
    rw [checking]
    exact List.mem_cons_of_mem _ there
  have keys := h.keys.2
  rw [checking, Evictor.lists, List.map_cons, List.nodup_cons] at keys
  apply State.evict_elim
  case crash => exact fun _ => h.still rfl rfl (.refl _) rfl rfl fun _ _ _ => id
  case gone =>
    intro heap removed
    rcases h.removals valid checking with ⟨-, heap', takes⟩ | ⟨-, -, none⟩
    · obtain rfl := Option.some.inj (removed.symm.trans takes.result)
      obtain ⟨taken, perm, own⟩ := takes.items
      have timers : s.timers ~ taken ++ (heap.items ++ s.timer.expired) := by
        rw [State.timers, ← List.append_assoc]
        exact perm.append_right _
      have stays : ∀ item ∈ s.timers, item ∉ taken → item ∈ heap.items ++ s.timer.expired :=
        fun item there other =>
          (List.mem_append.mp (timers.mem_iff.mp there)).resolve_left other
      refine ⟨fun item there => h.known item (timers.mem_iff.mpr (List.mem_append_right _ there)),
        ?_, h.own, ?_, ?_, ?_, keys.2⟩
      · have ids := (timers.map HeapItem.id).nodup_iff.mp h.ids
        rw [List.map_append] at ids
        exact (List.nodup_append.mp ids).2.1
      · intro t b item pushed
        obtain ⟨batch, there, untimed⟩ := h.pushed t b item pushed
        refine ⟨batch, stays item there fun gone => ?_, untimed⟩
        have pointed := (own item gone).2
        rw [batch, untimed] at pointed
        cases pointed
      · intro kv listed
        obtain ⟨other, old⟩ : kv.1 ≠ key ∧ Filed s kv := by
          rcases List.mem_append.mp listed with listed | listed
          · obtain ⟨there, other⟩ := List.mem_filter.mp listed
            exact ⟨of_decide_eq_true other, h.filed kv (List.mem_append_left _ there)⟩
          · refine ⟨?_, h.filed kv (List.mem_append_right _ (todos kv listed))⟩
            rintro rfl
            exact keys.1 (List.mem_map.mpr ⟨kv, listed, rfl⟩)
        refine old.mono (.of_eq rfl) fun b hb item has => ?_
        refine stays item (old.timed b hb item has) fun gone => ?_
        have evicted := (own item gone).1
        rw [h.own b item has] at evicted
        exact old.apart (h.filed _ (List.mem_append_right _ here)) other hb evicted
      · exact h.keys.1.sublist (List.filter_sublist.map _)
    · rw [none] at removed
      cases removed

end

/-- A snapshot, and what is left of one. -/
theorem Linked.scan (h : Linked s) {evictor : Evictor}
    (lists : ∀ kv ∈ evictor.lists, kv ∈ s.batches ++ s.evictor.lists)
    (keys : (evictor.lists.map Prod.fst).Nodup) : Linked { s with evictor := evictor } := by
  refine h.mono rfl (.refl _) (fun _ => rfl) (.of_eq rfl) (fun _ _ _ => id) ?_ ⟨h.keys.1, keys⟩
  intro kv there
  rcases List.mem_append.mp there with there | there
  · exact .inl (List.mem_append_left _ there)
  · exact .inl (lists kv there)

/-- The rest of a snapshot. -/
theorem Linked.narrow (h : Linked s) {evictor : Evictor}
    (fewer : evictor.lists <+ s.evictor.lists) : Linked { s with evictor := evictor } :=
  h.scan (fun _ there => List.mem_append_right _ (fewer.subset there))
    (h.keys.2.sublist (fewer.map _))

theorem Linked.step (h : Linked s) (valid : s.heap.Valid s.items) {e : Event}
    (move : Step cfg s e s') : Linked s' := by
  cases move with
  | receive msg _ _ => exact h.received (State.receive_received cfg s msg)
  | @create t times _ _ _ =>
    rw [create_eq]
    refine h.createWith t fun batch hb => ?_
    obtain ⟨time, -, rfl⟩ := List.mem_map.mp hb
    exact ⟨rfl, rfl⟩
  | append _ located hb =>
    apply State.append_elim
    case full => exact h.still rfl rfl (.refl _) rfl rfl nofun
    case record => exact fun pkt _ => h.record hb
  | openBatch time _ _ => exact h.openWith _ ⟨rfl, rfl⟩
  | appendNew _ opened hb =>
    apply State.appendNew_elim
    case refused => exact h.still rfl rfl (.refl _) rfl rfl nofun
    case record => exact fun pkt _ => h.record hb
  | push now _ _ hb untimed => exact h.push hb untimed now
  | keep _ _ _ _ => exact h.still rfl rfl (.refl _) rfl rfl nofun
  | finish _ pushed hb => exact h.finish pushed hb
  | expire now _ idle => exact h.expire idle now
  | flushBatch _ timer free hb _ => exact h.flushBatch timer free hb
  | shortBuffer _ _ _ _ _ => exact h.still rfl rfl (.refl _) rfl rfl fun _ _ _ => id
  | flush _ done =>
    refine h.still rfl rfl ?_ rfl rfl fun _ _ _ => id
    rw [State.timers, State.timers, done]
    exact .refl _
  | snapshot now _ _ perm =>
    exact h.scan (fun kv there => List.mem_append_left _ (perm.mem_iff.mp there))
      ((perm.map _).nodup_iff.mpr h.keys.1)
  | done _ _ => exact h.narrow (List.nil_sublist _)
  | visit _ scanning => exact h.narrow (by rw [scanning]; exact List.Sublist.refl _)
  | readTime _ checking _ => exact h.narrow (by rw [checking]; exact List.Sublist.refl _)
  | fresh _ checking => exact h.narrow (by rw [checking]; exact List.sublist_cons_self _ _)
  | evict _ checking => exact h.evict valid checking

theorem Linked.init : Linked State.init :=
  ⟨nofun, List.nodup_nil, nofun, nofun, nofun, List.nodup_nil, List.nodup_nil⟩

theorem linked_of_run {ok : State → Event → Prop} (run : Run (Step cfg) ok State.init s) :
    Linked s ∧ s.heap.Valid s.items :=
  run.invariant (P := fun s => Linked s ∧ s.heap.Valid s.items)
    (fun _ _ _ h _ move => ⟨h.1.step h.2 move, valid_step h.2 move⟩)
    ⟨Linked.init, MinHeap.valid_nil⟩

end

/-- The batches whose key `evictStaleBatches` deletes in its next section. -/
def State.evicting (s : State) : Option (List Nat) :=
  match s.evictor with
  | .checking _ _ v [] true _ => some v
  | _ => none

theorem checking_of_evicting {s : State} {v : List Nat} (h : s.evicting = some v) :
    ∃ now key todo, s.evictor = .checking now key v [] true todo := by
  unfold State.evicting at h
  split at h
  · rename_i now key v' todo checking
    obtain rfl := Option.some.inj h
    exact ⟨now, key, todo, checking⟩
  · cases h

/-- An eviction gives `heap.Remove` only the positions of the items it means, and does not
panic, exactly when `checkTimeout` has popped no item of a batch of its key without having
flushed the batch. -/
theorem removals_live_iff {cfg : Config} {s : State} {v : List Nat}
    (run : Run (Step cfg) (fun _ _ => True) State.init s) (evicting : s.evicting = some v) :
    (LiveRemovals s.mem s.heap v ↔ ¬ HasPopped s.mem s.timer.expired v) ∧
      ∀ s', Step cfg s .evict s' → (s'.crashed = false ↔ ¬ HasPopped s.mem s.timer.expired v) := by
  obtain ⟨now, key, todo, checking⟩ := checking_of_evicting evicting
  obtain ⟨linked, valid⟩ := linked_of_run run
  have steps : ∀ s', Step cfg s .evict s' → s.crashed = false ∧ s' = s.evict now key v todo := by
    intro s' move
    cases move with
    | fresh _ checking' =>
      rw [checking] at checking'
      cases checking'
    | evict up checking' =>
      rw [checking] at checking'
      cases checking'
      exact ⟨up, rfl⟩
  rcases linked.removals valid checking with ⟨calm, heap, takes⟩ | ⟨popped, dead, none⟩
  · refine ⟨iff_of_true takes.live calm, fun s' move => iff_of_true ?_ calm⟩
    obtain ⟨up, rfl⟩ := steps s' move
    rw [State.evict, takes.result]
    exact up
  · refine ⟨iff_of_false dead (not_not_intro popped), fun s' move =>
      iff_of_false ?_ (not_not_intro popped)⟩
    obtain ⟨-, rfl⟩ := steps s' move
    rw [State.evict, none]
    simp

/-- A batch is opened, flushed after 60 ms, and taken again a minute later. -/
def reopened : List Event :=
  [.receive (request 80 7), .create [0], .append, .push 0, .unlock, .expire 60000000, .flushBatch,
    .flush, .receive (request 80 9), .append, .push 61000000000, .unlock]

/-- An eviction that comes before the batch is due again takes out the right item. -/
theorem removals_live_before_deadline :
    ∃ s, State.init.execute shipped (reopened ++ [.snapshot 61040000000, .visit, .readTime]) =
        some s ∧ s.evicting = some [0] ∧ (heapItemAt s.mem 0).isSome ∧
      LiveRemovals s.mem s.heap [0] := by
  have ran : (State.init.execute shipped
      (reopened ++ [.snapshot 61040000000, .visit, .readTime])).map (fun s =>
        (s.evicting, (heapItemAt s.mem 0).isSome, decide (HasPopped s.mem s.timer.expired [0]))) =
      some (some [0], true, false) := by
    decide +kernel
  obtain ⟨s, ran, seen⟩ := Option.map_eq_some_iff.mp ran
  obtain ⟨evicting, seen⟩ := Prod.mk.inj seen
  obtain ⟨timed, calm⟩ := Prod.mk.inj seen
  refine ⟨s, ran, evicting, timed, ?_⟩
  exact (removals_live_iff (run_of_execute shipped ran fun _ _ _ => trivial) evicting).1.mpr
    (of_decide_eq_false calm)

/-- The batch becomes due between the reading of its age and the eviction: the index of its
item is -1 by then, and `heap.Remove` panics. -/
theorem eviction_panics :
    ∃ s s', State.init.execute shipped (reopened ++
        [.snapshot 61040000000, .visit, .readTime, .expire 61050000000]) = some s ∧
      s.evicting = some [0] ∧ (heapItemAt s.mem 0).map (s.heap.index ·.id) = some (-1) ∧
      ¬ LiveRemovals s.mem s.heap [0] ∧ s.next shipped .evict = some s' ∧ s'.crashed = true := by
  have ran : (State.init.execute shipped (reopened ++
      [.snapshot 61040000000, .visit, .readTime, .expire 61050000000])).map (fun s =>
        (s.evicting, (heapItemAt s.mem 0).map (s.heap.index ·.id),
          (s.next shipped .evict).map State.crashed)) =
      some (some [0], some (-1), some true) := by
    decide +kernel
  obtain ⟨s, ran, seen⟩ := Option.map_eq_some_iff.mp ran
  obtain ⟨evicting, seen⟩ := Prod.mk.inj seen
  obtain ⟨index, seen⟩ := Prod.mk.inj seen
  obtain ⟨s', next, crashed⟩ := Option.map_eq_some_iff.mp seen
  refine ⟨s, s', ran, evicting, index, ?_, next, crashed⟩
  obtain ⟨item, has, away⟩ := Option.map_eq_some_iff.mp index
  exact (removals_away has away).1

end SkyAccel.Aggregator
