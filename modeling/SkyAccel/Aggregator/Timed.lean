import SkyAccel.Aggregator.Version

/-!
# Every pending record has a timer

`Timed` links the batches to the heap: a batch has at most one item in the heap or
among those already popped, namely the one its `heapItem` points to or that
`handleMsg` has just pushed, and a batch with pending records has one unless
`handleMsg` holds its lock. Every step keeps this but an eviction of a batch that
has an item.
-/

namespace SkyAccel.Aggregator

/-- The items in the heap, and those popped whose batch is not yet flushed. -/
def State.timers (s : State) : List HeapItem := s.heap.items ++ s.timer.expired

/-- The item of a batch, from the moment it is pushed. -/
def State.itemOf (s : State) (b : Nat) (batch : Batch) : Option HeapItem :=
  match s.handler with
  | .pushed _ b' item => if b' = b then some item else batch.heapItem
  | _ => batch.heapItem

theorem State.itemOf_free {s : State} {b : Nat} (free : s.handler.locked ≠ some b) (batch : Batch) :
    s.itemOf b batch = batch.heapItem := by
  unfold State.itemOf
  split
  · rename_i handler
    rw [handler] at free
    exact if_neg fun same => free (congrArg some same)
  · rfl

/-- The batch that `handleMsg` works on. -/
def Handler.ref : Handler → Option Nat
  | .located _ b => some b
  | .opened _ b => some b
  | .appended _ b => some b
  | .pushed _ b _ => some b
  | _ => none

structure Timed (s : State) : Prop where
  one : ∀ b batch, s.mem[b]? = some batch →
    (s.timers.filter (·.batch = b)).Perm (s.itemOf b batch).toList
  pending : ∀ b batch, s.mem[b]? = some batch → batch.log ≠ [] →
    batch.heapItem ≠ none ∨ s.handler.locked = some b
  items : ∀ item ∈ s.timers, item.batch < s.mem.length
  keys : ∀ kv ∈ s.batches, ∀ b ∈ kv.2, b < s.mem.length
  ref : ∀ b, s.handler.ref = some b → b < s.mem.length

/-- The step does not delete a key of which a batch has an item. -/
def EvictsUntimed (s : State) (e : Event) : Prop :=
  e = .evict → ∀ now key v todo, s.evictor = .checking now key v [] true todo →
    ∀ b ∈ v, ∀ batch, s.mem[b]? = some batch → batch.heapItem = none

section
variable {cfg : Config} {s s' : State}

theorem Timed.bList (h : Timed s) {key : String} : ∀ b ∈ s.bList key, b < s.mem.length :=
  fun _ => Store.mem_lookup_getD h.keys

/-! ## Steps that leave the batches alone -/

theorem Timed.mono (h : Timed s) (mem : s'.mem = s.mem) (timers : s'.timers.Perm s.timers)
    (batches : ∀ kv ∈ s'.batches, kv ∈ s.batches)
    (item : ∀ b batch, s'.itemOf b batch = s.itemOf b batch)
    (locked : s'.handler.locked = s.handler.locked)
    (ref : ∀ b, s'.handler.ref = some b → b < s.mem.length) : Timed s' where
  one := by
    intro b batch hb
    rw [item]
    exact (timers.filter _).trans (h.one b batch (mem ▸ hb))
  pending := by
    intro b batch hb some
    rw [locked]
    exact h.pending b batch (mem ▸ hb) some
  items := by
    intro it hit
    rw [mem]
    exact h.items it (timers.mem_iff.mp hit)
  keys := by
    intro kv hkv
    rw [mem]
    exact h.keys kv (batches kv hkv)
  ref := by
    rw [mem]
    exact ref

theorem Timed.received (h : Timed s) (idle : s.handler = .idle) {msg : AggregatorMsg}
    (received : Received s msg s') : Timed s' := by
  have item : ∀ b batch, s.itemOf b batch = batch.heapItem := fun b =>
    State.itemOf_free (by rw [idle]; exact nofun)
  -- a message that waits for its batch, in whatever way
  have waits : ∀ handler : Handler, handler.locked = none →
      (∀ b batch, State.itemOf { s with handler := handler } b batch = batch.heapItem) →
      (∀ b, handler.ref = some b → b < s.mem.length) →
      Timed { s with seq := s.seq + 1, handler := handler } := by
    intro handler unlocked plain ref
    refine h.mono rfl (.refl _) (fun _ => id) (fun b batch => ?_) ?_ ref
    · exact (plain b batch).trans (item b batch).symm
    · rw [idle]
      exact unlocked
  cases received with
  | refused => exact h.mono rfl (.refl _) (fun _ => id) (fun _ _ => rfl) rfl h.ref
  | urgent p => exact h.mono rfl (.refl _) (fun _ => id) (fun _ _ => rfl) rfl h.ref
  | absent _ => exact waits _ rfl (fun _ _ => rfl) nofun
  | @located b found =>
    apply waits _ rfl (fun _ _ => rfl)
    rintro b' ⟨⟩
    exact h.bList b (pick_mem found)

theorem Timed.expire (h : Timed s) (idle : s.timer = .idle) (now : Int) : Timed (s.expire now) := by
  refine h.mono rfl ?_ (fun _ => id) (fun _ _ => rfl) rfl h.ref
  have none : s.timers = s.heap.items := by
    rw [State.timers, idle]
    exact List.append_nil _
  rw [none]
  exact (popExpired_perm now s.heap.items.length s.heap).symm

theorem Timed.flush (h : Timed s) {now : Int} {toSend : List SendInfo}
    (done : s.timer = .flushing now [] toSend) : Timed (s.flush toSend) := by
  refine h.mono rfl ?_ (fun _ => id) (fun _ _ => rfl) rfl h.ref
  rw [State.timers, State.timers, done]
  exact .refl _

theorem removeItems_untimed {mem : List Batch} (heap : MinHeap) {v : List Nat}
    (untimed : ∀ b ∈ v, ∀ batch, mem[b]? = some batch → batch.heapItem = none) :
    State.removeItems mem heap v = some heap := by
  induction v with
  | nil => rfl
  | cons b v ih =>
    have none : mem[b]?.bind Batch.heapItem = none := by
      cases found : mem[b]? with
      | none => rfl
      | some batch => exact untimed b List.mem_cons_self batch found
    rw [State.removeItems, none]
    exact ih fun b' hb' => untimed b' (List.mem_cons_of_mem _ hb')

theorem Timed.evict (h : Timed s) {now : Int} {key : String} {v : List Nat}
    {todo : List (String × List Nat)}
    (untimed : ∀ b ∈ v, ∀ batch, s.mem[b]? = some batch → batch.heapItem = none) :
    Timed (s.evict now key v todo) := by
  rw [State.evict, removeItems_untimed s.heap untimed]
  exact h.mono rfl (.refl _) (fun kv hkv => List.mem_of_mem_filter hkv) (fun _ _ => rfl) rfl h.ref

/-! ## New batches -/

/-- New batches have neither records nor items. -/
theorem Timed.alloc (h : Timed s) (s' : State) {news : List Batch} (mem : s'.mem = s.mem ++ news)
    (new : ∀ batch ∈ news, batch.heapItem = none ∧ batch.log = [])
    (heap : s'.heap = s.heap) (timer : s'.timer = s.timer)
    (keys : ∀ kv ∈ s'.batches, ∀ b ∈ kv.2, b < s'.mem.length)
    (free : s.handler.locked = none) (item : ∀ b batch, s'.itemOf b batch = batch.heapItem)
    (ref : ∀ b, s'.handler.ref = some b → b < s'.mem.length) : Timed s' := by
  have item' : ∀ b batch, s.itemOf b batch = batch.heapItem := fun b =>
    State.itemOf_free (by rw [free]; exact nofun)
  have timers : s'.timers = s.timers := by rw [State.timers, State.timers, heap, timer]
  constructor
  · intro b batch hb
    rw [item, timers]
    rw [mem] at hb
    rcases Store.getElem?_append hb with hb | ⟨far, hb⟩
    · rw [← item' b batch]
      exact h.one b batch hb
    · have none : s.timers.filter (·.batch = b) = [] := by
        rw [List.filter_eq_nil_iff]
        intro it hit same
        have := h.items it hit
        rw [of_decide_eq_true same] at this
        omega
      rw [none, (new batch hb).1]
      exact .refl _
  · intro b batch hb some
    rw [mem] at hb
    rcases Store.getElem?_append hb with hb | ⟨-, hb⟩
    · left
      exact (h.pending b batch hb some).resolve_right (by rw [free]; exact nofun)
    · exact absurd (new batch hb).2 some
  · intro it hit
    rw [timers] at hit
    rw [mem, List.length_append]
    exact (h.items it hit).trans_le (Nat.le_add_right _ _)
  · exact keys
  · exact ref

/-- Batches made for a message have neither. -/
theorem fresh_of_map {times : List Int} {new : Int → Batch}
    (fresh : ∀ time, (new time).heapItem = none ∧ (new time).log = []) :
    ∀ batch ∈ times.map new, batch.heapItem = none ∧ batch.log = [] := by
  intro batch hb
  obtain ⟨time, -, rfl⟩ := List.mem_map.mp hb
  exact fresh time

theorem Timed.putNew (h : Timed s) {key : String} {n : Nat} :
    ∀ kv ∈ s.putNew key n, ∀ b ∈ kv.2, b < s.mem.length + n := by
  intro kv hkv b hb
  unfold State.putNew at hkv
  split at hkv
  · exact (h.keys kv hkv b hb).trans_le (Nat.le_add_right _ _)
  · rcases List.mem_cons.mp hkv with rfl | hkv
    · exact (List.mem_range'_1.mp hb).2
    · exact (h.keys kv hkv b hb).trans_le (Nat.le_add_right _ _)

theorem Timed.createWith (h : Timed s) {t : Ticket} (absent : s.handler = .absent t)
    {news : List Batch} (new : ∀ batch ∈ news, batch.heapItem = none ∧ batch.log = []) :
    Timed (s.createWith t news) := by
  have grows : (s.createWith t news).mem.length = s.mem.length + news.length :=
    List.length_append
  refine h.alloc (s.createWith t news) rfl new rfl rfl ?_ (by rw [absent]; rfl) ?_ ?_
  · rw [grows]
    exact h.putNew
  · intro b batch
    rw [State.itemOf]
    rcases s.createWith_handler t news with idle | ⟨b, -, located⟩
    · rw [idle]
    · rw [located]
  · intro b ref
    rw [grows]
    rcases s.createWith_handler t news with idle | ⟨b', chosen, located⟩
    · rw [idle] at ref
      cases ref
    · rw [located] at ref
      obtain rfl := Option.some.inj ref
      exact Store.mem_lookup_getD h.putNew chosen

theorem Timed.openWith (h : Timed s) {t : Ticket} (full : s.handler = .full t) {new : Batch}
    (fresh : new.heapItem = none ∧ new.log = []) : Timed (s.openWith t new) := by
  have grows : (s.openWith t new).mem.length = s.mem.length + 1 := List.length_append
  refine h.alloc (s.openWith t new) rfl ?_ rfl rfl ?_ (by rw [full]; rfl) (fun _ _ => rfl) ?_
  · intro batch hb
    rw [List.mem_singleton.mp hb]
    exact fresh
  · intro kv hkv b hb
    rw [grows]
    rcases List.mem_cons.mp hkv with rfl | hkv
    · rcases List.mem_append.mp hb with hb | hb
      · exact (h.bList b hb).trans_le (Nat.le_succ _)
      · rw [List.mem_singleton.mp hb]
        exact Nat.lt_succ_self _
    · exact (h.keys kv (List.mem_of_mem_filter hkv) b hb).trans_le (Nat.le_succ _)
  · rintro b ⟨⟩
    rw [grows]
    exact Nat.lt_succ_self _

/-! ## Steps that write a batch -/

/-- A record is appended to a batch, which `handleMsg` keeps locked. -/
theorem Timed.record (h : Timed s) {t : Ticket} {b : Nat} {batch batch' : Batch}
    (hb : s.mem[b]? = some batch) (mem : s'.mem = s.mem.set b batch')
    (same : batch'.heapItem = batch.heapItem) (batches : s'.batches = s.batches)
    (heap : s'.heap = s.heap) (timer : s'.timer = s.timer) (handler : s'.handler = .appended t b)
    (before : s.handler = .located t b ∨ s.handler = .opened t b) : Timed s' := by
  have timers : s'.timers = s.timers := by rw [State.timers, State.timers, heap, timer]
  have length : s'.mem.length = s.mem.length := by rw [mem, List.length_set]
  have item : ∀ b batch, s'.itemOf b batch = s.itemOf b batch := by
    intro b batch
    rw [State.itemOf, State.itemOf, handler]
    rcases before with before | before <;> rw [before]
  constructor
  · intro b' x hx
    rw [timers, item]
    rw [mem, Store.getElem?_set hb] at hx
    split at hx
    · rename_i eq
      subst eq
      obtain rfl := Option.some.inj hx
      have one := h.one b' batch hb
      rcases before with before | before
      · simpa only [State.itemOf, before, same] using one
      · simpa only [State.itemOf, before, same] using one
    · exact h.one b' x hx
  · intro b' x hx some
    rw [mem, Store.getElem?_set hb] at hx
    split at hx
    · rename_i eq
      right
      rw [handler, eq]
      rfl
    · rename_i ne
      left
      refine (h.pending b' x hx some).resolve_right ?_
      rcases before with before | before
      · rw [before]
        exact nofun
      · rw [before]
        rintro ⟨⟩
        exact ne rfl
  · rw [timers, length]
    exact h.items
  · rw [batches, length]
    exact h.keys
  · rw [handler, length]
    rintro b' ⟨⟩
    exact Store.lt_of_some hb

theorem Timed.append (h : Timed s) {t : Ticket} {b : Nat} {batch : Batch}
    (located : s.handler = .located t b) (hb : s.mem[b]? = some batch) :
    Timed (s.append t b batch) := by
  have full : Timed { s with handler := .full t } := by
    refine h.mono rfl (.refl _) (fun _ => id) (fun b batch => ?_) (by rw [located]; rfl) nofun
    rw [State.itemOf, State.itemOf, located]
  apply State.append_elim
  case full => exact full
  case record =>
    intro pkt _
    exact h.record hb rfl rfl rfl rfl rfl rfl (.inl located)

theorem Timed.appendNew (h : Timed s) {t : Ticket} {b : Nat} {batch : Batch}
    (opened : s.handler = .opened t b) (hb : s.mem[b]? = some batch) :
    Timed (s.appendNew t b batch) := by
  apply State.appendNew_elim
  case refused =>
    refine h.mono rfl (.refl _) (fun _ => id) (fun b batch => ?_) (by rw [opened]; rfl) ?_
    · rw [State.itemOf, State.itemOf, opened]
    · rintro b' ⟨⟩
      exact Store.lt_of_some hb
  case record =>
    intro pkt _
    exact h.record hb rfl rfl rfl rfl rfl rfl (.inr opened)

/-- The batch in hand has no item yet, so the one pushed is its only one. -/
theorem Timed.push (h : Timed s) {t : Ticket} {b : Nat} {batch : Batch}
    (appended : s.handler = .appended t b) (hb : s.mem[b]? = some batch)
    (untimed : batch.heapItem = none) (now : Int) : Timed (s.push cfg t b now) := by
  have timers : (s.push cfg t b now).timers.Perm
      (⟨s.items, b, now + milliseconds cfg.batchTimeoutMs⟩ :: s.timers) :=
    (push_items _ _).append_right s.timer.expired
  have old : ∀ b batch, s.itemOf b batch = batch.heapItem := by
    intro b batch
    rw [State.itemOf, appended]
  constructor
  · intro b' x hx
    refine (timers.filter _).trans ?_
    have one := h.one b' x hx
    rw [old] at one
    by_cases eq : b = b'
    · subst eq
      have same : x = batch := Option.some.inj (hx.symm.trans hb)
      rw [same, untimed, Option.toList_none, List.perm_nil] at one
      rw [List.filter_cons_of_pos (by simp), one]
      simp [State.itemOf, State.push]
    · rw [List.filter_cons_of_neg (by simpa using eq)]
      simpa [State.itemOf, State.push, eq] using one
  · intro b' x hx some
    rcases h.pending b' x hx some with timed | locked
    · exact .inl timed
    · right
      rw [appended] at locked
      exact locked
  · intro it hit
    rcases List.mem_cons.mp (timers.mem_iff.mp hit) with rfl | hit
    · exact Store.lt_of_some hb
    · exact h.items it hit
  · exact h.keys
  · rintro b' ⟨⟩
    exact Store.lt_of_some hb

theorem Timed.keep (h : Timed s) {t : Ticket} {b : Nat} {batch : Batch}
    (appended : s.handler = .appended t b) (hb : s.mem[b]? = some batch)
    (timed : batch.heapItem ≠ none) : Timed { s with handler := .idle } where
  one := by
    intro b' x hx
    have one := h.one b' x hx
    rw [State.itemOf, appended] at one
    exact one
  pending := by
    intro b' x hx some
    left
    refine (h.pending b' x hx some).elim id ?_
    rw [appended]
    rintro ⟨⟩
    rw [Option.some.inj (hx.symm.trans hb)]
    exact timed
  items := h.items
  keys := h.keys
  ref := nofun

theorem Timed.finish (h : Timed s) {t : Ticket} {b : Nat} {item : HeapItem} {batch : Batch}
    (pushed : s.handler = .pushed t b item) (hb : s.mem[b]? = some batch) :
    Timed (s.finish b batch item) := by
  have length : (s.finish b batch item).mem.length = s.mem.length := List.length_set
  constructor
  · intro b' x hx
    have hx' := (Store.getElem?_set hb _ b').symm.trans hx
    split at hx'
    · rename_i eq
      subst eq
      obtain rfl := Option.some.inj hx'
      have one := h.one b' batch hb
      simp only [State.itemOf, pushed, if_true] at one
      exact one
    · rename_i ne
      have one := h.one b' x hx'
      simp only [State.itemOf, pushed, Ne.symm ne, if_false] at one
      exact one
  · intro b' x hx some
    left
    have hx' := (Store.getElem?_set hb _ b').symm.trans hx
    split at hx'
    · obtain rfl := Option.some.inj hx'
      exact nofun
    · rename_i ne
      refine (h.pending b' x hx' some).resolve_right ?_
      rw [pushed]
      rintro ⟨⟩
      exact ne rfl
  · rw [length]
    exact h.items
  · rw [length]
    exact h.keys
  · exact nofun

/-- A batch whose item was popped has no other, so none is left when it is flushed. -/
theorem Timed.flushBatch (h : Timed s) {now : Int} {item : HeapItem} {rest : List HeapItem}
    {toSend : List SendInfo} {batch : Batch} (timer : s.timer = .flushing now (item :: rest) toSend)
    (free : s.handler.locked ≠ some item.batch) (hb : s.mem[item.batch]? = some batch) :
    Timed (s.flushBatch now item rest toSend batch) := by
  have timers : s.timers.Perm (item :: (s.flushBatch now item rest toSend batch).timers) := by
    rw [State.timers, timer]
    exact List.perm_middle
  have length : (s.flushBatch now item rest toSend batch).mem.length = s.mem.length :=
    List.length_set
  constructor
  · intro b x hx
    have hx' := (Store.getElem?_set hb _ b).symm.trans hx
    split at hx'
    · rename_i eq
      subst eq
      obtain rfl := Option.some.inj hx'
      have one := h.one item.batch batch hb
      have size := (one.symm.trans (timers.filter _)).length_eq
      rw [List.filter_cons_of_pos (by simp), List.length_cons] at size
      have most : (s.itemOf item.batch batch).toList.length ≤ 1 := by
        cases s.itemOf item.batch batch <;> simp
      have none : (s.flushBatch now item rest toSend batch).timers.filter
          (·.batch = item.batch) = [] := List.eq_nil_of_length_eq_zero (by omega)
      rw [none, State.itemOf_free (s := s.flushBatch now item rest toSend batch) free]
      exact .refl _
    · rename_i ne
      have one := (timers.filter _).symm.trans (h.one b x hx')
      rw [List.filter_cons_of_neg (by simpa using Ne.symm ne)] at one
      exact one
  · intro b x hx some
    have hx' := (Store.getElem?_set hb _ b).symm.trans hx
    split at hx'
    · obtain rfl := Option.some.inj hx'
      exact absurd rfl some
    · exact h.pending b x hx' some
  · intro it hit
    rw [length]
    exact h.items it (timers.mem_iff.mpr (List.mem_cons_of_mem _ hit))
  · rw [length]
    exact h.keys
  · rw [length]
    exact h.ref

theorem Timed.step (h : Timed s) {e : Event} (untimed : EvictsUntimed s e) (move : Step cfg s e s') :
    Timed s' := by
  cases move with
  | receive msg _ idle => exact h.received idle (State.receive_received cfg s msg)
  | create times _ absent _ =>
    rw [create_eq]
    exact h.createWith absent (fresh_of_map fun _ => ⟨rfl, rfl⟩)
  | append _ located hb => exact h.append located hb
  | openBatch time _ full => exact h.openWith full ⟨rfl, rfl⟩
  | appendNew _ opened hb => exact h.appendNew opened hb
  | push now _ appended hb none => exact h.push appended hb none now
  | keep _ appended hb timed => exact h.keep appended hb timed
  | finish _ pushed hb => exact h.finish pushed hb
  | expire now _ idle => exact h.expire idle now
  | flushBatch _ timer free hb _ => exact h.flushBatch timer free hb
  | flush _ done => exact h.flush done
  | evict _ checking => exact h.evict (untimed rfl _ _ _ _ checking)
  | shortBuffer | snapshot | done | visit | readTime | fresh =>
    exact ⟨h.one, h.pending, h.items, h.keys, h.ref⟩

theorem Timed.init : Timed State.init := ⟨nofun, nofun, nofun, nofun, nofun⟩

end

end SkyAccel.Aggregator
