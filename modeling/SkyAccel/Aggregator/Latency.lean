import SkyAccel.Aggregator.Deadlines
import SkyAccel.Aggregator.Eviction

/-!
# How long a record waits

A batch gets its item when its first record is appended, and the item is due one
`batchTimeoutMs` after that; later records of the batch have less time to wait. So what
`handleMsg` has accepted when the clock shows `τ` has left the worker with the first
`checkTimeout` that begins at `τ + batchTimeoutMs` or later (`sent_in_time`), however the
other goroutines run meanwhile and as long as no eviction takes an item away.
-/

namespace SkyAccel.Aggregator

open Tunnel
open scoped List

/-- Items are pushed at `τ` at the latest. -/
def Event.PushesBy (τ : Int) (e : Event) : Prop := ∀ now, e = .push now → now ≤ τ

/-- Every item there is is due at `limit`. -/
def DueBy (limit : Int) (s : State) : Prop := ∀ item ∈ s.timers, item.deadline ≤ limit

/-- The record is in a frame, or in the batch of one of the items. -/
def State.Leaving (s : State) (items : List HeapItem) (t : Ticket) : Prop :=
  (∃ f ∈ s.frames, t ∈ f.log) ∨
    ∃ item ∈ items, ∃ batch, s.mem[item.batch]? = some batch ∧ t ∈ batch.log

/-- The record is in a frame, or in the batch of an item that is due at `limit`. -/
def State.LeavingBy (s : State) (limit : Int) (t : Ticket) : Prop :=
  s.Leaving (s.timers.filter (·.deadline ≤ limit)) t

/-- What a step does with the records of a batch: they leave in a frame, or they stay in the
batch and its item stays where it is. -/
structure Keeps (s s' : State) : Prop where
  frames : s.frames ⊆ s'.frames
  batch : ∀ b batch, s.mem[b]? = some batch →
    (∃ f ∈ s'.frames, batch.log ⊆ f.log) ∨
      (∃ batch', s'.mem[b]? = some batch' ∧ batch.log ⊆ batch'.log) ∧
        (∀ item ∈ s.timers, item.batch = b → item ∈ s'.timers) ∧
        ∀ item ∈ s.timer.expired, item.batch = b → item ∈ s'.timer.expired

section
variable {cfg : Config} {s s' : State}

/-! ## Steps -/

theorem Keeps.of_subset (frames : s.frames ⊆ s'.frames)
    (mem : ∀ (b : Nat) (batch : Batch), s.mem[b]? = some batch →
      ∃ batch' : Batch, s'.mem[b]? = some batch' ∧ batch.log ⊆ batch'.log)
    (timers : s.timers ⊆ s'.timers) (expired : s.timer.expired ⊆ s'.timer.expired) : Keeps s s' :=
  ⟨frames, fun b batch hb =>
    .inr ⟨mem b batch hb, fun _ there _ => timers there, fun _ there _ => expired there⟩⟩

/-- Nothing but the handler and the evictor moves on. -/
theorem Keeps.of_eq (sent : s'.sent = s.sent) (mem : s'.mem = s.mem) (heap : s'.heap = s.heap)
    (timer : s'.timer = s.timer) : Keeps s s' := by
  refine .of_subset ?_ (fun b batch hb => ⟨batch, mem ▸ hb, List.Subset.refl _⟩) ?_ ?_
  · simp [State.frames, sent, timer]
  · simp [State.timers, heap, timer]
  · simp [timer]

/-- A batch is written, and keeps its records. -/
theorem Keeps.of_set {b : Nat} {batch batch' : Batch} (hb : s.mem[b]? = some batch)
    (more : batch.log ⊆ batch'.log) (mem : s'.mem = s.mem.set b batch') (sent : s'.sent = s.sent)
    (heap : s'.heap = s.heap) (timer : s'.timer = s.timer) : Keeps s s' := by
  refine .of_subset ?_ (fun c x hx => ?_) ?_ ?_
  · simp [State.frames, sent, timer]
  · rw [mem, Store.getElem?_set hb]
    split
    · rename_i same
      subst same
      obtain rfl := Option.some.inj (hb.symm.trans hx)
      exact ⟨batch', rfl, more⟩
    · exact ⟨x, hx, List.Subset.refl _⟩
  · simp [State.timers, heap, timer]
  · simp [timer]

/-- Batches are added. -/
theorem Keeps.of_append {news : List Batch} (mem : s'.mem = s.mem ++ news) (sent : s'.sent = s.sent)
    (heap : s'.heap = s.heap) (timer : s'.timer = s.timer) : Keeps s s' := by
  refine .of_subset ?_ (fun b batch hb => ⟨batch, ?_, List.Subset.refl _⟩) ?_ ?_
  · simp [State.frames, sent, timer]
  · rw [mem, List.getElem?_append_left (Store.lt_of_some hb), hb]
  · simp [State.timers, heap, timer]
  · simp [timer]

theorem Keeps.flushBatch {now : Int} {item : HeapItem} {rest : List HeapItem}
    {toSend : List SendInfo} {batch : Batch}
    (timer : s.timer = .flushing now (item :: rest) toSend) (hb : s.mem[item.batch]? = some batch) :
    Keeps s (s.flushBatch now item rest toSend batch) := by
  have frames := State.frames_flushBatch timer batch
  refine ⟨by simp [frames], fun b x hx => ?_⟩
  by_cases same : b = item.batch
  · subst same
    obtain rfl := Option.some.inj (hb.symm.trans hx)
    exact .inl ⟨batch.sendInfo, by simp [frames], List.Subset.refl _⟩
  · -- another batch: its item is not the one that is worked on
    have stays : ∀ x ∈ item :: rest, x.batch = b → x ∈ rest := by
      intro x there own
      obtain rfl | there := List.mem_cons.mp there
      · exact absurd own.symm same
      · exact there
    refine .inr ⟨⟨x, ?_, List.Subset.refl _⟩, fun x there own => ?_, fun x there own => ?_⟩
    · simp only [State.flushBatch, Store.getElem?_set hb, if_neg same, hx]
    · simp only [State.timers, State.flushBatch, timer, Timer.expired, List.mem_append] at there ⊢
      exact there.imp id fun there => stays x there own
    · simp only [State.flushBatch, timer, Timer.expired] at there ⊢
      exact stays x there own

theorem Keeps.step {e : Event} (untimed : EvictsUntimed s e) (move : Step cfg s e s') :
    Keeps s s' := by
  cases move with
  | receive msg _ _ =>
    apply State.receive_elim (P := Keeps s)
    case urgent =>
      intro p _ _
      refine .of_subset ?_ (fun b batch hb => ⟨batch, hb, List.Subset.refl _⟩)
        (List.Subset.refl _) (List.Subset.refl _)
      intro f there
      simp only [State.frames, List.mem_append] at there ⊢
      exact there.imp .inl id
    all_goals intros; exact .of_eq rfl rfl rfl rfl
  | create times _ _ _ => exact .of_append rfl rfl rfl rfl
  | append _ _ hb =>
    apply State.append_elim
    case full => exact .of_eq rfl rfl rfl rfl
    case record =>
      exact fun pkt _ => .of_set hb (List.subset_append_left _ _) rfl rfl rfl rfl
  | openBatch time _ _ => exact .of_append rfl rfl rfl rfl
  | appendNew _ _ hb =>
    apply State.appendNew_elim
    case refused => exact .of_eq rfl rfl rfl rfl
    case record =>
      exact fun pkt _ => .of_set hb (List.subset_append_left _ _) rfl rfl rfl rfl
  | @push t b batch now _ _ _ _ =>
    refine .of_subset (List.Subset.refl _) (fun b batch hb => ⟨batch, hb, List.Subset.refl _⟩) ?_
      (List.Subset.refl _)
    intro item there
    simp only [State.timers, State.push, List.mem_append] at there ⊢
    refine there.imp (fun there => ?_) id
    exact (push_items s.heap _).mem_iff.mpr (List.mem_cons_of_mem _ there)
  | @finish t b item batch _ _ hb =>
    have same : batch.log ⊆ { batch with heapItem := some item }.log := List.Subset.refl _
    exact .of_set hb same rfl rfl rfl rfl
  | expire now _ idle =>
    refine .of_subset ?_ (fun b batch hb => ⟨batch, hb, List.Subset.refl _⟩) ?_
      (by simp [idle, Timer.expired])
    · rw [State.frames_expire idle]
      exact List.Subset.refl _
    · intro item there
      simp only [State.timers, idle, Timer.expired, List.append_nil] at there
      exact (popExpired_perm now s.heap.items.length s.heap).mem_iff.mp there
  | flushBatch _ timer _ hb _ => exact .flushBatch timer hb
  | flush _ done =>
    refine .of_subset ?_ (fun b batch hb => ⟨batch, hb, List.Subset.refl _⟩) ?_
      (by simp [done, Timer.expired])
    · rw [State.frames_flush done]
      exact List.Subset.refl _
    · simp [State.timers, State.flush, done, Timer.expired]
  | evict _ checking =>
    rw [State.evict, removeItems_untimed s.heap (untimed rfl _ _ _ _ checking)]
    exact .of_eq rfl rfl rfl rfl
  | _ => exact .of_eq rfl rfl rfl rfl

/-- Items are only made by `handleMsg`, which reads the clock for them. -/
theorem DueBy.step {τ : Int} {e : Event} (h : DueBy (τ + milliseconds cfg.batchTimeoutMs) s)
    (early : e.PushesBy τ) (move : Step cfg s e s') :
    DueBy (τ + milliseconds cfg.batchTimeoutMs) s' := by
  cases move with
  | receive msg _ _ =>
    exact State.receive_elim (P := DueBy _) h (fun _ _ _ => h) (fun _ _ => h) (fun _ _ _ => h)
  | append _ _ _ => exact State.append_elim (P := DueBy _) h fun _ _ => h
  | appendNew _ _ _ => exact State.appendNew_elim (P := DueBy _) h fun _ _ => h
  | push now _ _ _ _ =>
    intro item there
    obtain there | there := List.mem_append.mp there
    · obtain rfl | there := List.mem_cons.mp ((push_items _ _).mem_iff.mp there)
      · have := early now rfl
        exact Int.add_le_add_right this _
      · exact h item (List.mem_append_left _ there)
    · exact h item (List.mem_append_right _ there)
  | expire now _ idle =>
    intro item there
    have back := (popExpired_perm now s.heap.items.length s.heap).mem_iff.mpr there
    exact h item (List.mem_append_left _ back)
  | @flushBatch now item rest toSend batch _ timer _ _ _ =>
    intro x there
    simp only [State.timers, State.flushBatch, Timer.expired, List.mem_append] at there
    apply h x
    simp only [State.timers, timer, Timer.expired, List.mem_append]
    exact there.imp id (List.mem_cons_of_mem item)
  | flush _ done =>
    intro item there
    simp only [State.timers, State.flush, Timer.expired, List.append_nil] at there
    exact h item (List.mem_append_left _ there)
  | evict _ _ =>
    apply State.evict_elim (P := DueBy _)
    case crash => exact fun _ => h
    case gone =>
      intro heap removed item there
      obtain there | there := List.mem_append.mp there
      · exact h item (List.mem_append_left _ (removeItems_subset removed there))
      · exact h item (List.mem_append_right _ there)
  | _ => exact h

theorem DueBy.init {limit : Int} : DueBy limit State.init := by
  simp [DueBy, State.timers, State.init, Timer.expired]

/-! ## Runs -/

/-- A `checkTimeout` that begins when an item is due pops it. -/
theorem State.LeavingBy.expire {limit now : Int} {t : Ticket} (h : s.LeavingBy limit t)
    (valid : s.heap.Valid s.items) (idle : s.timer = .idle) (late : limit ≤ now) :
    (s.expire now).Leaving (s.expire now).timer.expired t := by
  obtain ⟨f, there, carries⟩ | ⟨item, listed, batch, hb, logged⟩ := h
  · exact .inl ⟨f, State.frames_expire idle now ▸ there, carries⟩
  · obtain ⟨listed, due⟩ := List.mem_filter.mp listed
    simp only [State.timers, idle, Timer.expired, List.append_nil] at listed
    refine .inr ⟨item, ?_, batch, hb, logged⟩
    refine (popExpired_takesDue now valid).due.mem_iff.mpr (List.mem_filter.mpr ⟨listed, ?_⟩)
    exact decide_eq_true ((of_decide_eq_true due).trans late)

/-- When `checkTimeout` is done, what it has popped is sent. -/
theorem State.Leaving.sent {t : Ticket} (idle : s.timer = .idle)
    (h : s.Leaving s.timer.expired t) : ∃ f ∈ s.sent, t ∈ f.log := by
  obtain ⟨f, there, carries⟩ | ⟨item, listed, -⟩ := h
  · simp only [State.frames, idle, Timer.toSend, List.append_nil] at there
    exact ⟨f, there, carries⟩
  · simp [idle, Timer.expired] at listed

end

end SkyAccel.Aggregator
