import SkyAccel.Aggregator.Intake
import Mathlib.Algebra.Order.Group.Multiset

/-!
# What a worker lets out

What holds of the frames of a worker whatever its goroutines do, evictions included. An
eviction may take the item of a batch away that the batch still points to, but an item that
is left always belongs to a batch that points to it (`Claimed`). So a batch is never flushed
twice for the same records, and every frame carries the records of its log, under a header
made for a message that the worker took (`Outgoing`).

Messages are not multiplied on the way: what a section sends, with what it leaves pending, is
among what was pending and the message it takes (`Step.flow`).
-/

namespace SkyAccel.Aggregator

open Tunnel
open scoped List

/-- Every item belongs to the batch that points to it, and no batch has two. -/
structure Claimed (s : State) : Prop where
  once : ∀ b, s.timers.countP (·.batch = b) ≤ 1
  inside : ∀ item ∈ s.timers, item.batch < s.mem.length
  back : ∀ item ∈ s.timers, ∀ batch, s.mem[item.batch]? = some batch →
    s.itemOf item.batch batch = some item

/-- The frame carries the records of its log, under the header of a message in `Q`. -/
def SendInfo.CarriesFor (Q : AggregatorMsg → Prop) (f : SendInfo) : Prop :=
  ∃ (msg : AggregatorMsg) (p : Packet), Q msg ∧ HeaderOf msg p ∧
    p.payloadLen.toNat = (encodeAll (records f.log)).length ∧
    f.p = p.wire (encodeAll (records f.log))

/-- What a worker holds that takes messages in `Q` only. -/
structure Outgoing (cfg : Config) (Q : AggregatorMsg → Prop) (s : State) : Prop where
  batches : ∀ batch ∈ s.mem, ∃ msg, Q msg ∧ BatchPacket cfg msg batch.pkt (records batch.log)
  waiting : ∀ t ∈ s.handler.waiting, emerges cfg t.msg = false ∧ Q t.msg
  blank : ∀ b batch, s.mem[b]? = some batch → batch.log = [] →
    batch.pkt.payloadLen = 0 ∨ batch.heapItem = none ∧ s.handler.locked ≠ some b
  frames : ∀ f ∈ s.frames, f.CarriesFor Q

/-- The messages that a worker has not let out yet. -/
def State.content (s : State) : Multiset AggregatorMsg :=
  ((s.handler.waiting ++ s.mem.flatMap Batch.log ++ s.timer.toSend.flatMap SendInfo.log).map
    Ticket.msg : List AggregatorMsg)

section
variable {cfg : Config} {s s' : State}

/-! ## Items and batches -/

theorem removeItems_subperm {mem : List Batch} {h h' : MinHeap} {v : List Nat}
    (removed : State.removeItems mem h v = some h') : h'.items <+~ h.items := by
  induction v generalizing h with
  | nil =>
    obtain rfl := Option.some.inj removed
    exact .refl _
  | cons b v ih =>
    simp only [State.removeItems] at removed
    split at removed
    · exact ih removed
    · split at removed
      · cases removed
      · rename_i h₁ taken
        have shorter : h₁.items <+~ h.items :=
          (List.sublist_cons_self _ _).subperm.trans (remove_items taken).symm.subperm
        exact (ih removed).trans shorter

/-- Steps that add no item and leave the items of the batches that there are. -/
theorem Claimed.mono (h : Claimed s) (timers : s'.timers <+~ s.timers)
    (length : s.mem.length ≤ s'.mem.length)
    (kept : ∀ (b : Nat) batch', b < s.mem.length → s'.mem[b]? = some batch' →
      ∃ batch, s.mem[b]? = some batch ∧ s'.itemOf b batch' = s.itemOf b batch) : Claimed s' where
  once b := (timers.countP_le _).trans (h.once b)
  inside item there := (h.inside item (timers.subset there)).trans_le length
  back item there batch' hb' := by
    obtain ⟨batch, hb, same⟩ := kept _ batch' (h.inside item (timers.subset there)) hb'
    exact same.trans (h.back item (timers.subset there) batch hb)

/-- Steps that leave the batches and the items of the batches alone. -/
theorem Claimed.still (h : Claimed s) (timers : s'.timers <+~ s.timers) (mem : s'.mem = s.mem)
    (item : ∀ b batch, s'.itemOf b batch = s.itemOf b batch) : Claimed s' := by
  apply h.mono timers (by simp only [mem, le_refl])
  intro b batch' _ hb'
  exact ⟨batch', mem ▸ hb', item b batch'⟩

/-- Unless an item was just pushed, a batch has the one that it points to. -/
theorem State.itemOf_eq (unpushed : ∀ t b item, s.handler ≠ .pushed t b item) (b : Nat)
    (batch : Batch) : s.itemOf b batch = batch.heapItem := by
  unfold State.itemOf
  split
  · rename_i t b' item handler
    exact absurd handler (unpushed t b' item)
  · rfl

theorem Claimed.alloc (h : Claimed s) (s' : State) {news : List Batch}
    (mem : s'.mem = s.mem ++ news) (timers : s'.timers = s.timers)
    (item : ∀ b batch, s'.itemOf b batch = s.itemOf b batch) : Claimed s' := by
  apply h.mono (timers ▸ .refl _) (by simp [mem])
  intro b batch' inside hb'
  rw [mem, List.getElem?_append_left inside] at hb'
  exact ⟨batch', hb', item b batch'⟩

theorem Claimed.set (h : Claimed s) {b : Nat} {batch new : Batch} (hb : s.mem[b]? = some batch)
    (mem : s'.mem = s.mem.set b new) (timers : s'.timers = s.timers)
    (own : s'.itemOf b new = s.itemOf b batch)
    (others : ∀ b' x, b' ≠ b → s'.itemOf b' x = s.itemOf b' x) : Claimed s' := by
  apply h.mono (timers ▸ .refl _) (by simp [mem])
  intro b' batch' _ hb'
  rw [mem, Store.getElem?_set hb] at hb'
  split at hb'
  · rename_i same
    obtain rfl := Option.some.inj hb'
    exact ⟨batch, same ▸ hb, same ▸ own⟩
  · rename_i other
    exact ⟨batch', hb', others b' batch' other⟩

/-- The batch in hand points to no item, so none belongs to it. -/
theorem Claimed.push (h : Claimed s) {t : Ticket} {b : Nat} {batch : Batch}
    (appended : s.handler = .appended t b) (hb : s.mem[b]? = some batch)
    (untimed : batch.heapItem = none) (now : Int) : Claimed (s.push cfg t b now) := by
  have timers : (s.push cfg t b now).timers ~
      ⟨s.items, b, now + milliseconds cfg.batchTimeoutMs⟩ :: s.timers :=
    (push_items _ _).append_right s.timer.expired
  have old : ∀ b batch, s.itemOf b batch = batch.heapItem :=
    State.itemOf_eq (by simp [appended])
  have apart : ∀ item ∈ s.timers, item.batch ≠ b := by
    rintro item there rfl
    have points := h.back item there batch hb
    rw [old, untimed] at points
    cases points
  constructor
  case once =>
    intro b'
    rw [timers.countP_eq, List.countP_cons]
    by_cases same : b' = b
    · have none : s.timers.countP (·.batch = b) = 0 := by simpa using apart
      simp [same, none]
    · have before := h.once b'
      simpa [Ne.symm same] using before
  case inside =>
    intro item there
    obtain rfl | there := List.mem_cons.mp (timers.mem_iff.mp there)
    · exact Store.lt_of_some hb
    · exact h.inside item there
  case back =>
    intro item there x hx
    obtain rfl | there := List.mem_cons.mp (timers.mem_iff.mp there)
    · simp [State.itemOf, State.push]
    · have points := h.back item there x hx
      rw [old] at points
      simpa [State.itemOf, State.push, Ne.symm (apart item there)] using points

/-- The item popped is the only one of its batch. -/
theorem Claimed.flushBatch (h : Claimed s) {now : Int} {item : HeapItem} {rest : List HeapItem}
    {toSend : List SendInfo} {batch : Batch} (timer : s.timer = .flushing now (item :: rest) toSend)
    (hb : s.mem[item.batch]? = some batch) :
    Claimed (s.flushBatch now item rest toSend batch) := by
  have timers : s.timers ~ item :: (s.flushBatch now item rest toSend batch).timers := by
    rw [State.timers, timer]
    exact List.perm_middle
  have counts : ∀ b, s.timers.countP (·.batch = b) =
      (s.flushBatch now item rest toSend batch).timers.countP (·.batch = b) +
        if item.batch = b then 1 else 0 := by
    intro b
    simp [timers.countP_eq, List.countP_cons]
  constructor
  case once =>
    intro b
    have before := h.once b
    have := counts b
    omega
  case inside =>
    intro other there
    have before := h.inside other (timers.mem_iff.mpr (List.mem_cons_of_mem _ there))
    simpa [State.flushBatch] using before
  case back =>
    intro other there x hx
    have apart : other.batch ≠ item.batch := by
      intro same
      have before := h.once item.batch
      have own := counts item.batch
      have one := List.countP_pos_iff (p := (·.batch = item.batch)).mpr
        ⟨other, there, by simpa using same⟩
      simp only [if_true] at own
      omega
    have hx' := (Store.getElem?_set hb (batch.reset now) other.batch).symm.trans hx
    rw [if_neg apart] at hx'
    exact h.back other (timers.mem_iff.mpr (List.mem_cons_of_mem _ there)) x hx'

theorem Claimed.received (h : Claimed s) (idle : s.handler = .idle) {msg : AggregatorMsg}
    (received : Received s msg s') : Claimed s' := by
  have plain : ∀ b batch, s.itemOf b batch = batch.heapItem := State.itemOf_eq (by simp [idle])
  cases received with
  | refused | urgent p => exact h.still (.refl _) rfl fun _ _ => rfl
  | absent _ | located _ => exact h.still (.refl _) rfl fun b batch => (plain b batch).symm

theorem Claimed.step (h : Claimed s) {e : Event} (move : Step cfg s e s') : Claimed s' := by
  cases move with
  | receive msg _ idle => exact h.received idle (State.receive_received cfg s msg)
  | @create t times _ absent _ =>
    apply h.alloc (s.create cfg t times) rfl rfl
    have after : ∀ t' b item, (s.create cfg t times).handler ≠ .pushed t' b item := by
      intro t' b item pushed
      obtain idle | ⟨b', -, located⟩ := s.create_handler cfg t times
      · simp [idle] at pushed
      · simp [located] at pushed
    intro b batch
    rw [State.itemOf_eq after, State.itemOf_eq (by simp [absent])]
  | @append t b batch _ located hb =>
    have plain : ∀ b batch, s.itemOf b batch = batch.heapItem := State.itemOf_eq (by simp [located])
    apply State.append_elim
    case full => exact h.still (.refl _) rfl fun b batch => (plain b batch).symm
    case record =>
      exact fun pkt _ => h.set hb rfl rfl (plain b batch).symm fun b' x _ => (plain b' x).symm
  | @openBatch t time _ full =>
    have plain : ∀ b batch, s.itemOf b batch = batch.heapItem := State.itemOf_eq (by simp [full])
    exact h.alloc (s.openBatch cfg t time) rfl rfl fun b batch => (plain b batch).symm
  | @appendNew t b batch _ opened hb =>
    have plain : ∀ b batch, s.itemOf b batch = batch.heapItem := State.itemOf_eq (by simp [opened])
    apply State.appendNew_elim
    case refused => exact h.still (.refl _) rfl fun b batch => (plain b batch).symm
    case record =>
      exact fun pkt _ => h.set hb rfl rfl (plain b batch).symm fun b' x _ => (plain b' x).symm
  | push now _ appended hb none => exact h.push appended hb none now
  | keep _ appended _ _ =>
    exact h.still (.refl _) rfl fun b batch =>
      (State.itemOf_eq (by simp [appended]) b batch).symm
  | @finish t b item batch _ pushed hb =>
    refine h.set hb rfl rfl ?_ fun b' x other => ?_
    · simp [State.itemOf, State.finish, pushed]
    · simp [State.itemOf, State.finish, pushed, Ne.symm other]
  | expire now _ idle =>
    refine h.still ?_ rfl fun _ _ => rfl
    simp only [State.timers, idle, Timer.expired, List.append_nil]
    exact (popExpired_perm now s.heap.items.length s.heap).symm.subperm
  | flushBatch _ timer _ hb _ => exact h.flushBatch timer hb
  | flush _ done =>
    refine h.still ?_ rfl fun _ _ => rfl
    simp only [State.timers, State.flush, done, Timer.expired]
    exact .refl _
  | evict _ _ =>
    apply State.evict_elim
    case crash => exact fun _ => h.still (.refl _) rfl fun _ _ => rfl
    case gone =>
      intro heap removed
      refine h.still ?_ rfl fun _ _ => rfl
      exact (List.subperm_append_right _).mpr (removeItems_subperm removed)
  | shortBuffer | snapshot | done | visit | readTime | fresh =>
    exact h.still (.refl _) rfl fun _ _ => rfl

theorem Claimed.init : Claimed State.init := ⟨fun _ => Nat.zero_le 1, nofun, nofun⟩

/-! ## Frames -/

variable {Q : AggregatorMsg → Prop}

/-- The frame of an urgent message. -/
theorem carriesFor_emerge (high : cfg.bufferSize ≤ 65559) (timeout : 20 < cfg.batchTimeoutMs)
    {f : SendInfo} {t : Ticket} (log : f.log = [t]) (own : Q t.msg)
    (urgent : emerges cfg t.msg = true) (built : emergeFrame cfg t.msg = some f.p) :
    f.CarriesFor Q := by
  obtain ⟨p, header, field, bytes⟩ := (FrameOf.emerge urgent built).wire
  have short : (encodeAll [t.msg.sub]).length < 65536 := by
    have fits := emergeFrame_fits built
    have : buffSize cfg t.msg ≤ 65559 := buffSize_le high timeout
    have : headerSize = 24 := rfl
    simp only [encodeAll_cons, encodeAll_nil, List.append_nil, SubPacket.length_encode]
    simp only [AggregatorMsg.sub]
    omega
  rw [Nat.mod_eq_of_lt short] at field bytes
  rw [List.take_length] at bytes
  have same : records f.log = [t.msg.sub] := by
    rw [log]
    rfl
  exact ⟨t.msg, p, own, header, same ▸ field, same ▸ bytes⟩

/-- The frame of a batch, which announces no records if it has none. -/
theorem carriesFor_batch (low : headerSize ≤ cfg.bufferSize) (high : cfg.bufferSize ≤ 65559)
    {batch : Batch} {msg : AggregatorMsg} (own : Q msg)
    (life : BatchPacket cfg msg batch.pkt (records batch.log))
    (blank : batch.log = [] → batch.pkt.payloadLen = 0) : batch.sendInfo.CarriesFor Q := by
  obtain ⟨holds, length⟩ := life.holds low
  by_cases none : batch.log = []
  · have zero := blank none
    have bytes := holds.frame_eq (by simp [zero])
    simp only [none, records, List.map_nil, encodeAll_nil, List.take_nil] at bytes
    exact ⟨msg, batch.pkt, own, life.header, by simp [Batch.sendInfo, none, zero, records],
      by simpa [Batch.sendInfo, none, records] using bytes⟩
  · obtain ⟨field, bytes⟩ := holds.frame_cut (length (by simpa [records] using none))
    have short : (encodeAll (records batch.log)).length < 65536 := by
      have := holds.fits
      have := holds.wp
      have := life.size.1
      have : headerSize = 24 := rfl
      omega
    rw [Nat.mod_eq_of_lt short] at field bytes
    rw [List.take_length] at bytes
    exact ⟨msg, batch.pkt, own, life.header, field, bytes⟩

/-- Steps that change no packet and take no lock. -/
theorem Outgoing.mono (h : Outgoing cfg Q s) (mem : s'.mem = s.mem)
    (frames : ∀ f ∈ s'.frames, f ∈ s.frames)
    (waiting : ∀ t ∈ s'.handler.waiting, t ∈ s.handler.waiting)
    (locked : ∀ b, s'.handler.locked = some b → s.handler.locked = some b) : Outgoing cfg Q s' where
  batches := mem ▸ h.batches
  waiting t there := h.waiting t (waiting t there)
  blank b batch hb none := by
    obtain zero | ⟨untimed, free⟩ := h.blank b batch (mem ▸ hb) none
    · exact .inl zero
    · exact .inr ⟨untimed, fun held => free (locked b held)⟩
  frames f there := h.frames f (frames f there)

theorem Outgoing.received (h : Outgoing cfg Q s) (high : cfg.bufferSize ≤ 65559)
    (timeout : 20 < cfg.batchTimeoutMs) {msg : AggregatorMsg} (own : Q msg) :
    Outgoing cfg Q (s.receive cfg msg) := by
  -- a message that waits for its batch, in whatever way
  have waits : ∀ handler : Handler, emerges cfg msg = false → handler.locked = none →
      handler.waiting = [⟨s.seq, msg⟩] →
      Outgoing cfg Q { s with seq := s.seq + 1, handler := handler } := by
    intro handler later unlocked waiting
    refine ⟨h.batches, by simp [waiting, later, own], fun b batch hb none => ?_, h.frames⟩
    obtain zero | ⟨untimed, -⟩ := h.blank b batch hb none
    · exact .inl zero
    · exact .inr ⟨untimed, by simp [unlocked]⟩
  apply State.receive_elim
  case refused => exact h.mono rfl (fun _ => id) (fun _ => id) fun _ => id
  case urgent =>
    intro p urgent built
    refine ⟨h.batches, h.waiting, h.blank, fun f there => ?_⟩
    obtain there | rfl := State.mem_frames_urgent there
    · exact h.frames f there
    · exact carriesFor_emerge high timeout rfl own urgent built
  case absent => exact fun later _ => waits _ later rfl rfl
  case located => exact fun b later _ => waits _ later rfl rfl

/-- New batches have a packet of their message, without records. -/
theorem Outgoing.alloc (h : Outgoing cfg Q s) (s' : State) {t : Ticket} (own : Q t.msg)
    (batched : emerges cfg t.msg = false) (times : List Int)
    (mem : s'.mem = s.mem ++ times.map (newBatch cfg t.msg)) (frames : s'.frames = s.frames)
    (waiting : ∀ x ∈ s'.handler.waiting, x = t)
    (locked : ∀ b, s'.handler.locked = some b → s.mem.length ≤ b) : Outgoing cfg Q s' where
  batches batch hb := by
    obtain hb | hb := List.mem_append.mp (mem ▸ hb)
    · exact h.batches batch hb
    · obtain ⟨time, -, rfl⟩ := List.mem_map.mp hb
      exact ⟨t.msg, own, (newBatch_written batched time).life.elim fun msg life =>
        life.of_header (preparePacket_header _)⟩
  waiting x there := waiting x there ▸ ⟨batched, own⟩
  blank b batch hb none := by
    rw [mem] at hb
    obtain hb | ⟨-, hb⟩ := Store.getElem?_append hb
    · obtain zero | ⟨untimed, -⟩ := h.blank b batch hb none
      · exact .inl zero
      · exact .inr ⟨untimed, fun held =>
          absurd (locked b held) (Nat.not_le.mpr (Store.lt_of_some hb))⟩
    · obtain ⟨time, -, rfl⟩ := List.mem_map.mp hb
      exact .inl (preparePacket_blank _ _)
  frames := frames ▸ h.frames

/-- Steps that write one batch, and hold no other. -/
theorem Outgoing.set (h : Outgoing cfg Q s) {b : Nat} {batch new : Batch}
    (hb : s.mem[b]? = some batch) (mem : s'.mem = s.mem.set b new)
    (life : ∃ msg, Q msg ∧ BatchPacket cfg msg new.pkt (records new.log))
    (blank : new.log = [] →
      new.pkt.payloadLen = 0 ∨ new.heapItem = none ∧ s'.handler.locked ≠ some b)
    (others : ∀ b', b' ≠ b → s'.handler.locked = some b' → s.handler.locked = some b')
    (frames : ∀ f ∈ s'.frames, f ∈ s.frames ∨ f.CarriesFor Q)
    (waiting : ∀ t ∈ s'.handler.waiting, t ∈ s.handler.waiting) : Outgoing cfg Q s' where
  batches x there := by
    obtain there | rfl := List.mem_or_eq_of_mem_set (mem ▸ there)
    · exact h.batches x there
    · exact life
  waiting t there := h.waiting t (waiting t there)
  blank b' x hx none := by
    rw [mem, Store.getElem?_set hb] at hx
    split at hx
    · rename_i same
      obtain rfl := Option.some.inj hx
      exact same ▸ blank none
    · rename_i other
      obtain zero | ⟨untimed, free⟩ := h.blank b' x hx none
      · exact .inl zero
      · exact .inr ⟨untimed, fun held => free (others b' other held)⟩
  frames f there := (frames f there).elim (h.frames f) id

theorem Outgoing.record (h : Outgoing cfg Q s) {t : Ticket} {b : Nat} {batch : Batch} {pkt : Packet}
    (waiting : t ∈ s.handler.waiting) (hb : s.mem[b]? = some batch)
    (accepted : batch.pkt.appendUserPacket t.msg.userID t.msg.data = some pkt) :
    Outgoing cfg Q { s with
      mem := s.mem.set b (batch.record pkt t)
      handler := .appended t b
      accepted := s.accepted ++ [t] } := by
  obtain ⟨msg, own, life⟩ := h.batches batch (List.mem_of_getElem? hb)
  have long := (buffSize_of_batched (h.waiting t waiting).1).2
  have more : records (batch.record pkt t).log = records batch.log ++ [t.msg.sub] := by
    simp [records, Batch.record]
  refine h.set hb rfl ⟨msg, own, more ▸ life.append long accepted⟩ ?_ ?_ (fun _ => .inl)
    (by simp [Handler.waiting])
  · intro none
    simp [Batch.record] at none
  · intro b' other held
    exact absurd (Option.some.inj held).symm other

/-- A batch whose item was popped still points to it, so it has records or announces none. -/
theorem Outgoing.blank_of_popped (h : Outgoing cfg Q s) (claimed : Claimed s) {now : Int}
    {item : HeapItem} {rest : List HeapItem} {toSend : List SendInfo} {batch : Batch}
    (timer : s.timer = .flushing now (item :: rest) toSend)
    (free : s.handler.locked ≠ some item.batch) (hb : s.mem[item.batch]? = some batch)
    (none : batch.log = []) : batch.pkt.payloadLen = 0 := by
  have points : batch.heapItem = some item := by
    have popped : item ∈ s.timers := by simp [State.timers, timer, Timer.expired]
    have back := claimed.back item popped batch hb
    rwa [State.itemOf_free free] at back
  obtain zero | ⟨untimed, -⟩ := h.blank item.batch batch hb none
  · exact zero
  · simp [untimed] at points

theorem Outgoing.flushBatch (h : Outgoing cfg Q s) (claimed : Claimed s)
    (low : headerSize ≤ cfg.bufferSize) (high : cfg.bufferSize ≤ 65559) {now : Int}
    {item : HeapItem} {rest : List HeapItem} {toSend : List SendInfo} {batch : Batch}
    (timer : s.timer = .flushing now (item :: rest) toSend)
    (free : s.handler.locked ≠ some item.batch) (hb : s.mem[item.batch]? = some batch) :
    Outgoing cfg Q (s.flushBatch now item rest toSend batch) := by
  obtain ⟨msg, own, life⟩ := h.batches batch (List.mem_of_getElem? hb)
  refine h.set hb rfl ⟨msg, own, life.flushed⟩ (fun _ => .inr ⟨rfl, free⟩) (fun _ _ => id) ?_
    fun _ => id
  intro f there
  rw [State.frames_flushBatch timer] at there
  obtain there | there := List.mem_append.mp there
  · exact .inl there
  · rw [List.mem_singleton.mp there]
    exact .inr (carriesFor_batch low high own life (h.blank_of_popped claimed timer free hb))

theorem Outgoing.step (h : Outgoing cfg Q s) (claimed : Claimed s)
    (low : headerSize ≤ cfg.bufferSize) (high : cfg.bufferSize ≤ 65559)
    (timeout : 20 < cfg.batchTimeoutMs) {e : Event} (own : ∀ msg ∈ e.message, Q msg)
    (move : Step cfg s e s') : Outgoing cfg Q s' := by
  cases move with
  | receive msg _ _ => exact h.received high timeout (own msg rfl)
  | @create t times _ absent _ =>
    obtain ⟨batched, own⟩ := h.waiting t (by simp [absent, Handler.waiting])
    refine h.alloc (s.create cfg t times) own batched times rfl rfl ?_ ?_
    · intro x there
      obtain idle | ⟨b, -, located⟩ := s.create_handler cfg t times
      · simp [idle, Handler.waiting] at there
      · simpa [located, Handler.waiting] using there
    · intro b held
      obtain idle | ⟨b, -, located⟩ := s.create_handler cfg t times
      · simp [idle, Handler.locked] at held
      · simp [located, Handler.locked] at held
  | @append t b batch _ located hb =>
    have waiting : t ∈ s.handler.waiting := by simp [located, Handler.waiting]
    apply State.append_elim
    case full =>
      exact h.mono rfl (fun _ => id) (by simp [located, Handler.waiting]) (by simp [Handler.locked])
    case record => exact fun pkt accepted => h.record waiting hb accepted
  | @openBatch t time _ full =>
    obtain ⟨batched, own⟩ := h.waiting t (by simp [full, Handler.waiting])
    refine h.alloc (s.openBatch cfg t time) own batched [time] rfl rfl ?_ ?_
    · simp [State.openBatch, Handler.waiting]
    · rintro b ⟨⟩
      exact le_refl _
  | @appendNew t b batch _ opened hb =>
    have waiting : t ∈ s.handler.waiting := by simp [opened, Handler.waiting]
    apply State.appendNew_elim
    case refused =>
      exact h.mono rfl (fun _ => id) (by simp [Handler.waiting]) (by simp [opened, Handler.locked])
    case record => exact fun pkt accepted => h.record waiting hb accepted
  | push now _ appended _ _ =>
    exact h.mono rfl (fun _ => id) (by simp [State.push, Handler.waiting])
      (by simp [appended, State.push, Handler.locked])
  | keep _ _ _ _ =>
    exact h.mono rfl (fun _ => id) (by simp [Handler.waiting]) (by simp [Handler.locked])
  | @finish t b item batch _ pushed hb =>
    refine h.set hb rfl (h.batches batch (List.mem_of_getElem? hb)) ?_
      (by simp [State.finish, Handler.locked]) (fun _ => .inl)
      (by simp [State.finish, Handler.waiting])
    intro none
    obtain zero | ⟨-, free⟩ := h.blank b batch hb none
    · exact .inl zero
    · simp [pushed, Handler.locked] at free
  | expire now _ idle =>
    exact h.mono rfl (fun f there => State.frames_expire idle now ▸ there) (fun _ => id) fun _ => id
  | flushBatch _ timer free hb _ => exact h.flushBatch claimed low high timer free hb
  | flush _ done =>
    exact h.mono rfl (fun f there => State.frames_flush done ▸ there) (fun _ => id) fun _ => id
  | evict _ _ =>
    apply State.evict_elim
    case crash => exact fun _ => h.mono rfl (fun _ => id) (fun _ => id) fun _ => id
    case gone => exact fun heap _ => h.mono rfl (fun _ => id) (fun _ => id) fun _ => id
  | shortBuffer | snapshot | done | visit | readTime | fresh =>
    exact h.mono rfl (fun _ => id) (fun _ => id) fun _ => id

theorem Outgoing.init : Outgoing cfg Q State.init := ⟨nofun, nofun, nofun, nofun⟩

/-! ## Messages -/

/-- The messages of the records that frames carry. -/
def sentMsgs (frames : List SendInfo) : Multiset AggregatorMsg :=
  ((frames.flatMap SendInfo.log).map Ticket.msg : List AggregatorMsg)

theorem State.content_eq (s : State) : s.content =
    (s.handler.waiting.map Ticket.msg : Multiset AggregatorMsg) +
      ((s.mem.flatMap Batch.log).map Ticket.msg : List AggregatorMsg) +
      sentMsgs s.timer.toSend := by
  simp only [State.content, sentMsgs, List.map_append, Multiset.coe_add]

theorem mem_logs_append {news : List Batch} (new : ∀ batch ∈ news, batch.log = []) :
    (s.mem ++ news).flatMap Batch.log = s.mem.flatMap Batch.log := by
  have none : news.flatMap Batch.log = [] := by simpa using new
  simp [none]

theorem State.content_le (waiting : s'.handler.waiting <+~ s.handler.waiting)
    (logs : s'.mem.flatMap Batch.log ~ s.mem.flatMap Batch.log)
    (toSend : s'.timer.toSend = s.timer.toSend) : s'.content ≤ s.content := by
  have less : s'.handler.waiting ++ s'.mem.flatMap Batch.log <+~
      s.handler.waiting ++ s.mem.flatMap Batch.log := waiting.append logs.subperm
  have all := Multiset.coe_le.mpr
    ((List.subperm_append_right (s.timer.toSend.flatMap SendInfo.log)).mpr less)
  rw [State.content, State.content, toSend, ← Multiset.map_coe, ← Multiset.map_coe]
  exact Multiset.map_le_map all

/-- A record moves from the message in hand to the log of a batch. -/
theorem State.content_record {t : Ticket} {b : Nat} {batch : Batch} {pkt : Packet}
    (waiting : s.handler.waiting = [t]) (hb : s.mem[b]? = some batch) :
    State.content { s with
      mem := s.mem.set b (batch.record pkt t)
      handler := .appended t b
      accepted := s.accepted ++ [t] } = s.content := by
  have moved := Store.flatMap_set_perm hb (batch.record pkt t) Batch.log
  have one : (s.mem.set b (batch.record pkt t)).flatMap Batch.log ~
      t :: s.mem.flatMap Batch.log := by
    apply (List.perm_append_left_iff batch.log).mp
    simpa [Batch.record] using moved
  rw [State.content, State.content, Multiset.coe_eq_coe]
  apply List.Perm.map
  rw [waiting]
  exact one.append_right (s.timer.toSend.flatMap SendInfo.log)

/-- The log of a batch moves to a frame. -/
theorem State.content_flushBatch {now : Int} {item : HeapItem} {rest : List HeapItem}
    {toSend : List SendInfo} {batch : Batch} (timer : s.timer = .flushing now (item :: rest) toSend)
    (hb : s.mem[item.batch]? = some batch) :
    (s.flushBatch now item rest toSend batch).content = s.content := by
  have moved := Store.flatMap_set_perm hb (batch.reset now) Batch.log
  have logs : batch.log ++ (s.mem.set item.batch (batch.reset now)).flatMap Batch.log ~
      s.mem.flatMap Batch.log := moved
  rw [State.content, State.content, Multiset.coe_eq_coe]
  apply List.Perm.map
  simp only [State.flushBatch, timer, Timer.toSend, List.flatMap_append, List.flatMap_singleton,
    List.append_assoc]
  apply List.Perm.append_left
  have last : toSend.flatMap SendInfo.log ++ batch.sendInfo.log ~
      batch.log ++ toSend.flatMap SendInfo.log := List.perm_append_comm
  calc (s.mem.set item.batch (batch.reset now)).flatMap Batch.log ++
        (toSend.flatMap SendInfo.log ++ batch.sendInfo.log)
      ~ (s.mem.set item.batch (batch.reset now)).flatMap Batch.log ++
        (batch.log ++ toSend.flatMap SendInfo.log) := last.append_left _
    _ ~ batch.log ++ ((s.mem.set item.batch (batch.reset now)).flatMap Batch.log ++
        toSend.flatMap SendInfo.log) := List.perm_append_comm_assoc _ _ _
    _ = batch.log ++ (s.mem.set item.batch (batch.reset now)).flatMap Batch.log ++
        toSend.flatMap SendInfo.log := (List.append_assoc _ _ _).symm
    _ ~ s.mem.flatMap Batch.log ++ toSend.flatMap SendInfo.log := logs.append_right _

/-- What is sent and left pending was pending, or is the message that is taken. -/
def Flows (s : State) (e : Event) (s' : State) : Prop :=
  ∃ new, s'.sent = s.sent ++ new ∧
    s'.content + sentMsgs new ≤ s.content + (e.message.toList : Multiset AggregatorMsg)

theorem Flows.quiet {e : Event} (sent : s'.sent = s.sent) (less : s'.content ≤ s.content) :
    Flows s e s' :=
  ⟨[], by simp [sent], by simpa [sentMsgs] using less.trans (Multiset.le_add_right _ _)⟩

theorem Flows.received (idle : s.handler = .idle) {msg : AggregatorMsg}
    (received : Received s msg s') : Flows s (.receive msg) s' := by
  have nobody : s.handler.waiting = [] := by
    rw [idle]
    rfl
  have waits : ∀ handler : Handler, handler.waiting = [⟨s.seq, msg⟩] →
      State.content { s with seq := s.seq + 1, handler := handler } = s.content + {msg} := by
    intro handler waiting
    simp only [State.content_eq, waiting, nobody, List.map_cons, List.map_nil,
      Multiset.coe_singleton, Multiset.coe_nil]
    abel
  cases received with
  | refused => exact .quiet rfl (State.content_le (.refl _) (.refl _) rfl)
  | urgent p => exact ⟨_, rfl, by simp [sentMsgs, State.content, Event.message]⟩
  | absent _ => exact ⟨[], by simp, by rw [waits _ rfl]; simp [sentMsgs, Event.message]⟩
  | located _ => exact ⟨[], by simp, by rw [waits _ rfl]; simp [sentMsgs, Event.message]⟩

theorem Step.flow {e : Event} (move : Step cfg s e s') : Flows s e s' := by
  cases move with
  | receive msg _ idle => exact .received idle (State.receive_received cfg s msg)
  | @create t times _ absent _ =>
    refine .quiet rfl (State.content_le ?_ ?_ rfl)
    · obtain idle | ⟨b, -, located⟩ := s.create_handler cfg t times
      · simp [idle, Handler.waiting]
      · simp [located, absent, Handler.waiting]
    · refine .of_eq (mem_logs_append fun batch hb => ?_)
      obtain ⟨time, -, rfl⟩ := List.mem_map.mp hb
      rfl
  | @append t b batch _ located hb =>
    apply State.append_elim
    case full =>
      exact .quiet rfl (State.content_le (by simp [located, Handler.waiting]) (.refl _) rfl)
    case record =>
      intro pkt _
      exact .quiet rfl (State.content_record (by simp [located, Handler.waiting]) hb).le
  | @openBatch t time _ full =>
    refine .quiet rfl (State.content_le ?_ (.of_eq (mem_logs_append ?_)) rfl)
    · simp [full, State.openBatch, Handler.waiting]
    · simp [newBatch]
  | @appendNew t b batch _ opened hb =>
    apply State.appendNew_elim
    case refused => exact .quiet rfl (State.content_le (by simp [Handler.waiting]) (.refl _) rfl)
    case record =>
      intro pkt _
      exact .quiet rfl (State.content_record (by simp [opened, Handler.waiting]) hb).le
  | push now _ _ _ _ =>
    exact .quiet rfl (State.content_le (by simp [State.push, Handler.waiting]) (.refl _) rfl)
  | keep _ _ _ _ => exact .quiet rfl (State.content_le (by simp [Handler.waiting]) (.refl _) rfl)
  | @finish t b item batch _ _ hb =>
    have logs := Store.map_set (x := { batch with heapItem := some item }) (f := Batch.log) hb rfl
    refine .quiet rfl (State.content_le (by simp [State.finish, Handler.waiting]) (.of_eq ?_) rfl)
    simp only [State.finish, List.flatMap_def, logs]
  | expire now _ idle =>
    have toSend : (s.expire now).timer.toSend = s.timer.toSend := by
      simp [State.expire, idle, Timer.toSend]
    exact .quiet rfl (State.content_le (.refl _) (.refl _) toSend)
  | flushBatch _ timer _ hb _ => exact .quiet rfl (State.content_flushBatch timer hb).le
  | @flush now toSend _ done =>
    refine ⟨toSend, rfl, ?_⟩
    simp [State.content_eq, State.flush, done, Timer.toSend, sentMsgs, Event.message]
  | evict _ _ =>
    apply State.evict_elim
    case crash => exact fun _ => .quiet rfl (State.content_le (.refl _) (.refl _) rfl)
    case gone => exact fun heap _ => .quiet rfl (State.content_le (.refl _) (.refl _) rfl)
  | shortBuffer | snapshot | done | visit | readTime | fresh =>
    exact .quiet rfl (State.content_le (.refl _) (.refl _) rfl)

end

end SkyAccel.Aggregator
