import SkyAccel.Aggregator.Books

/-!
# Every accepted record leaves exactly once

`Written` says what the packets hold: the pending region of a batch is the encoding of
its log, and a frame is built from the records of its log. `Blank` adds that a packet
without records announces none, which matters because `checkTimeout` does not clear the
length field. With `Timed` and `Books` they give `exactlyOnce`.
-/

namespace SkyAccel.Aggregator

open Tunnel
open scoped List

def records (log : List Ticket) : List SubPacket := log.map fun t => t.msg.sub

/-- How a frame was made: for one urgent message, or from a batch. -/
inductive Made (cfg : Config) (f : SendInfo) : Prop
  | emerge {t : Ticket} : f.log = [t] → emerges cfg t.msg = true →
      emergeFrame cfg t.msg = some f.p → Made cfg f
  | batch {msg : AggregatorMsg} {p : Packet} : BatchPacket cfg msg p (records f.log) →
      f.p = p.serializeHead.frame → Made cfg f

/-- The packet of a batch holds the records of its log, none of them urgent. -/
structure Batch.Written (cfg : Config) (batch : Batch) : Prop where
  life : ∃ msg, BatchPacket cfg msg batch.pkt (records batch.log)
  batched : ∀ t ∈ batch.log, emerges cfg t.msg = false

structure Written (cfg : Config) (s : State) : Prop where
  batches : ∀ batch ∈ s.mem, batch.Written cfg
  frames : ∀ f ∈ s.frames, Made cfg f
  waiting : ∀ t ∈ s.handler.waiting, emerges cfg t.msg = false

structure Blank (s : State) : Prop where
  batches : ∀ b batch, s.mem[b]? = some batch → batch.log = [] →
    batch.pkt.payloadLen = 0 ∨ batch.heapItem = none ∧ s.handler.locked ≠ some b
  frames : ∀ f ∈ s.frames, f.log = [] → ∃ p : Packet, p.payloadLen = 0 ∧ f.p = p.wire []

section
variable {cfg : Config} {s s' : State}

/-! ## What the packets hold -/

theorem buffSize_of_batched {msg : AggregatorMsg} (batched : emerges cfg msg = false) :
    buffSize cfg msg = cfg.bufferSize ∧ 128 ≤ msg.data.length := by
  unfold emerges at batched
  have later := (Bool.or_eq_false_iff.mp batched).2
  refine ⟨if_neg (by rw [later]; exact nofun), ?_⟩
  unfold immediate at later
  have long := (Bool.or_eq_false_iff.mp later).1
  simpa using long

/-- A long timeout leaves only short messages with a buffer of their own size. -/
theorem buffSize_le {msg : AggregatorMsg} (high : cfg.bufferSize ≤ 65559)
    (timeout : 20 < cfg.batchTimeoutMs) : buffSize cfg msg ≤ 65559 := by
  unfold buffSize
  split
  · rename_i now
    unfold immediate at now
    have late : decide (cfg.batchTimeoutMs ≤ 20) = false := decide_eq_false (not_le.mpr timeout)
    rw [late, Bool.or_false] at now
    have short := of_decide_eq_true now
    have : headerSize = 24 := rfl
    omega
  · exact high

theorem newBatch_written {msg : AggregatorMsg} (batched : emerges cfg msg = false) (time : Int) :
    (newBatch cfg msg time).Written cfg := by
  refine ⟨⟨msg, ?_⟩, nofun⟩
  simp only [newBatch, (buffSize_of_batched batched).1]
  exact .opened

theorem Written.mono (h : Written cfg s)
    (mem : ∀ batch ∈ s'.mem, ∃ old ∈ s.mem, batch.pkt = old.pkt ∧ batch.log = old.log)
    (frames : ∀ f ∈ s'.frames, f ∈ s.frames)
    (waiting : ∀ t ∈ s'.handler.waiting, t ∈ s.handler.waiting) : Written cfg s' where
  batches := by
    intro batch hb
    obtain ⟨old, hold, pkt, log⟩ := mem batch hb
    obtain ⟨life, batched⟩ := h.batches old hold
    rw [← pkt, ← log] at life
    exact ⟨life, log ▸ batched⟩
  frames := fun f hf => h.frames f (frames f hf)
  waiting := fun t ht => h.waiting t (waiting t ht)

theorem Written.receive (h : Written cfg s) (msg : AggregatorMsg) :
    Written cfg (s.receive cfg msg) := by
  apply State.receive_elim
  case refused => exact ⟨h.batches, h.frames, h.waiting⟩
  case urgent =>
    intro p urgent built
    refine ⟨h.batches, fun f hf => ?_, h.waiting⟩
    rcases State.mem_frames_urgent hf with hf | rfl
    · exact h.frames f hf
    · exact .emerge rfl urgent built
  case absent =>
    intro batched _
    exact ⟨h.batches, h.frames, fun t ht => by rw [List.mem_singleton.mp ht]; exact batched⟩
  case located =>
    intro b batched _
    exact ⟨h.batches, h.frames, fun t ht => by rw [List.mem_singleton.mp ht]; exact batched⟩

theorem Written.record (h : Written cfg s) {t : Ticket} {b : Nat} {batch : Batch} {pkt : Packet}
    (waiting : t ∈ s.handler.waiting) (hb : s.mem[b]? = some batch)
    (accepted : batch.pkt.appendUserPacket t.msg.userID t.msg.data = some pkt) :
    Written cfg { s with
      mem := s.mem.set b (batch.record pkt t)
      handler := .appended t b
      accepted := s.accepted ++ [t] } := by
  refine ⟨?_, h.frames, nofun⟩
  intro x hx
  rcases List.mem_or_eq_of_mem_set hx with hx | rfl
  · exact h.batches x hx
  · obtain ⟨⟨msg, life⟩, batched⟩ := h.batches batch (List.mem_of_getElem? hb)
    have long := (buffSize_of_batched (h.waiting t waiting)).2
    have more : records (batch.record pkt t).log = records batch.log ++ [t.msg.sub] := by
      simp [records, Batch.record]
    refine ⟨⟨msg, ?_⟩, fun x hx => ?_⟩
    · rw [more]
      exact life.append long accepted
    · rcases List.mem_append.mp hx with hx | hx
      · exact batched x hx
      · rw [List.mem_singleton.mp hx]
        exact h.waiting t waiting

theorem Written.step (h : Written cfg s) {e : Event} (move : Step cfg s e s') : Written cfg s' := by
  cases move with
  | receive msg _ _ => exact h.receive msg
  | @create t times _ absent _ =>
    have batched : emerges cfg t.msg = false :=
      h.waiting t (by rw [absent]; exact List.mem_cons_self)
    refine ⟨?_, h.frames, ?_⟩
    · intro batch hb
      rcases List.mem_append.mp hb with hb | hb
      · exact h.batches batch hb
      · obtain ⟨time, -, rfl⟩ := List.mem_map.mp hb
        exact newBatch_written batched time
    · intro t' ht'
      rcases s.create_handler cfg t times with idle | ⟨b, -, located⟩
      · rw [idle] at ht'
        cases ht'
      · rw [located] at ht'
        rw [List.mem_singleton.mp ht']
        exact batched
  | @append t b batch _ located hb =>
    have waiting : t ∈ s.handler.waiting := by rw [located]; exact List.mem_cons_self
    apply State.append_elim
    case full =>
      refine ⟨h.batches, h.frames, fun t' ht' => ?_⟩
      rw [List.mem_singleton.mp ht']
      exact h.waiting t waiting
    case record => exact fun pkt accepted => h.record waiting hb accepted
  | @openBatch t time _ full =>
    have batched : emerges cfg t.msg = false := h.waiting t (by rw [full]; exact List.mem_cons_self)
    refine ⟨?_, h.frames, ?_⟩
    · intro batch hb
      rcases List.mem_append.mp hb with hb | hb
      · exact h.batches batch hb
      · rw [List.mem_singleton.mp hb]
        exact newBatch_written batched time
    · intro t' ht'
      rw [List.mem_singleton.mp ht']
      exact batched
  | @appendNew t b batch _ opened hb =>
    have waiting : t ∈ s.handler.waiting := by rw [opened]; exact List.mem_cons_self
    apply State.appendNew_elim
    case refused => exact ⟨h.batches, h.frames, nofun⟩
    case record => exact fun pkt accepted => h.record waiting hb accepted
  | push now _ _ _ _ => exact ⟨h.batches, h.frames, nofun⟩
  | keep _ _ _ _ => exact ⟨h.batches, h.frames, nofun⟩
  | @finish t b item batch _ _ hb =>
    refine h.mono ?_ (fun _ => id) nofun
    intro x hx
    rcases List.mem_or_eq_of_mem_set hx with hx | rfl
    · exact ⟨x, hx, rfl, rfl⟩
    · exact ⟨batch, List.mem_of_getElem? hb, rfl, rfl⟩
  | expire now _ idle =>
    exact h.mono (fun x hx => ⟨x, hx, rfl, rfl⟩) (fun f hf => State.frames_expire idle now ▸ hf)
      (fun _ => id)
  | @flushBatch now item rest toSend batch _ timer _ hb _ =>
    obtain ⟨msg, life⟩ := (h.batches batch (List.mem_of_getElem? hb)).life
    refine ⟨?_, ?_, h.waiting⟩
    · intro x hx
      rcases List.mem_or_eq_of_mem_set hx with hx | rfl
      · exact h.batches x hx
      · exact ⟨⟨msg, life.flushed⟩, nofun⟩
    · intro f hf
      rw [State.frames_flushBatch timer] at hf
      rcases List.mem_append.mp hf with hf | hf
      · exact h.frames f hf
      · rw [List.mem_singleton.mp hf]
        exact .batch life rfl
  | @flush now toSend _ done =>
    exact h.mono (fun x hx => ⟨x, hx, rfl, rfl⟩) (fun f hf => State.frames_flush done ▸ hf)
      (fun _ => id)
  | evict _ _ =>
    apply State.evict_elim
    case crash => exact fun _ => ⟨h.batches, h.frames, h.waiting⟩
    case gone => exact fun heap _ => ⟨h.batches, h.frames, h.waiting⟩
  | shortBuffer | snapshot | done | visit | readTime | fresh =>
    exact ⟨h.batches, h.frames, h.waiting⟩

theorem Written.init : Written cfg State.init := ⟨nofun, nofun, nofun⟩

theorem Written.holds (h : Written cfg s) (room : headerSize ≤ cfg.bufferSize) :
    ∀ batch ∈ s.mem, Holds batch.pkt (records batch.log) := by
  intro batch hb
  obtain ⟨msg, life⟩ := (h.batches batch hb).life
  exact (life.holds room).1

/-! ## Packets without records -/

theorem preparePacket_blank (msg : AggregatorMsg) (size : Nat) :
    (preparePacket msg size).payloadLen = 0 := by
  rw [preparePacket_eq]
  rfl

/-- Steps that change no packet and give up no lock. -/
theorem Blank.mono (h : Blank s) (mem : s'.mem = s.mem) (frames : ∀ f ∈ s'.frames, f ∈ s.frames)
    (locked : s'.handler.locked = s.handler.locked) : Blank s' where
  batches := by
    rw [mem, locked]
    exact h.batches
  frames f hf := h.frames f (frames f hf)

theorem Blank.received (h : Blank s) (idle : s.handler = .idle) {msg : AggregatorMsg}
    (received : Received s msg s') : Blank s' := by
  cases received with
  | refused => exact h.mono rfl (fun _ => id) rfl
  | urgent p =>
    refine ⟨h.batches, fun f hf none => ?_⟩
    obtain hf | rfl := State.mem_frames_urgent hf
    · exact h.frames f hf none
    · cases none
  | absent _ => exact h.mono rfl (fun _ => id) (by rw [idle]; rfl)
  | located _ => exact h.mono rfl (fun _ => id) (by rw [idle]; rfl)

theorem Blank.alloc (h : Blank s) (s' : State) {news : List Batch} (mem : s'.mem = s.mem ++ news)
    (new : ∀ batch ∈ news, batch.pkt.payloadLen = 0) (frames : s'.frames = s.frames)
    (locked : ∀ b, s'.handler.locked = some b → s.mem.length ≤ b) : Blank s' where
  batches := by
    intro b batch hb none
    rw [mem] at hb
    rcases Store.getElem?_append hb with hb | ⟨-, hb⟩
    · rcases h.batches b batch hb none with zero | ⟨untimed, -⟩
      · exact .inl zero
      · refine .inr ⟨untimed, fun held => ?_⟩
        exact absurd (locked b held) (Nat.not_le.mpr (Store.lt_of_some hb))
    · exact .inl (new batch hb)
  frames := by
    rw [frames]
    exact h.frames

theorem Blank.createWith (h : Blank s) (t : Ticket) {news : List Batch}
    (new : ∀ batch ∈ news, batch.pkt.payloadLen = 0) : Blank (s.createWith t news) := by
  refine h.alloc (s.createWith t news) rfl new rfl fun b held => ?_
  obtain idle | ⟨b, -, located⟩ := s.createWith_handler t news
  · rw [idle] at held
    cases held
  · rw [located] at held
    cases held

theorem Blank.openWith (h : Blank s) (t : Ticket) {new : Batch} (fresh : new.pkt.payloadLen = 0) :
    Blank (s.openWith t new) := by
  refine h.alloc (s.openWith t new) rfl ?_ rfl ?_
  · intro batch hb
    rw [List.mem_singleton.mp hb]
    exact fresh
  · rintro b ⟨⟩
    exact le_refl _

/-- `handleMsg` writes a batch so that it has a record or an item. -/
theorem Blank.write (h : Blank s) {b : Nat} {batch batch' : Batch} (hb : s.mem[b]? = some batch)
    (mem : s'.mem = s.mem.set b batch') (frames : s'.frames = s.frames)
    (own : batch'.log = [] → batch'.pkt.payloadLen = 0)
    (others : ∀ b', b' ≠ b → s'.handler.locked ≠ some b') : Blank s' where
  batches := by
    intro b' x hx none
    rw [mem, Store.getElem?_set hb] at hx
    split at hx
    · obtain rfl := Option.some.inj hx
      exact .inl (own none)
    · rename_i ne
      rcases h.batches b' x hx none with zero | ⟨untimed, -⟩
      · exact .inl zero
      · exact .inr ⟨untimed, others b' ne⟩
  frames := by
    rw [frames]
    exact h.frames

theorem Blank.record (h : Blank s) {t : Ticket} {b : Nat} {batch : Batch} {pkt : Packet}
    (hb : s.mem[b]? = some batch) :
    Blank { s with
      mem := s.mem.set b (batch.record pkt t)
      handler := .appended t b
      accepted := s.accepted ++ [t] } := by
  refine h.write hb rfl rfl (fun none => ?_) (fun b' ne held => ne (Option.some.inj held).symm)
  exact absurd none (by simp [Batch.record])

/-- A batch that `handleMsg` holds has a record, or announces none. -/
theorem Blank.held (h : Blank s) {b : Nat} {batch : Batch} (hb : s.mem[b]? = some batch)
    (held : s.handler.locked = some b) (none : batch.log = []) : batch.pkt.payloadLen = 0 :=
  (h.batches b batch hb none).resolve_right fun free => free.2 held

theorem Blank.flushBatch (h : Blank s) (timed : Timed s)
    {now : Int} {item : HeapItem} {rest : List HeapItem} {toSend : List SendInfo} {batch : Batch}
    (timer : s.timer = .flushing now (item :: rest) toSend)
    (free : s.handler.locked ≠ some item.batch) (hb : s.mem[item.batch]? = some batch)
    (holds : Holds batch.pkt (records batch.log)) :
    Blank (s.flushBatch now item rest toSend batch) := by
  constructor
  · intro b x hx none
    have hx' := (Store.getElem?_set hb _ b).symm.trans hx
    split at hx'
    · rename_i eq
      obtain rfl := Option.some.inj hx'
      exact .inr ⟨rfl, eq ▸ free⟩
    · exact h.batches b x hx' none
  · intro f hf none
    rw [State.frames_flushBatch timer] at hf
    rcases List.mem_append.mp hf with hf | hf
    · exact h.frames f hf none
    · rw [List.mem_singleton.mp hf] at none ⊢
      -- the item popped is the one of the batch, so the batch has an item
      have has : batch.heapItem ≠ Option.none := by
        intro untimed
        have one := timed.one item.batch batch hb
        rw [State.itemOf_free free, untimed, Option.toList_none, List.perm_nil,
          List.filter_eq_nil_iff] at one
        refine one item ?_ (decide_eq_true rfl)
        rw [State.timers, timer]
        exact List.mem_append_right _ List.mem_cons_self
      have zero : batch.pkt.payloadLen = 0 :=
        (h.batches item.batch batch hb none).resolve_right fun untimed => has untimed.1
      have log : batch.log = [] := none
      rw [log] at holds
      refine ⟨batch.pkt, zero, ?_⟩
      have frame := holds.frame_eq (by rw [zero]; exact Nat.zero_le _)
      rw [zero] at frame
      exact frame

theorem Blank.step (h : Blank s) (timed : Timed s)
    (holds : ∀ batch ∈ s.mem, Holds batch.pkt (records batch.log)) {e : Event}
    (move : Step cfg s e s') : Blank s' := by
  cases move with
  | receive msg _ idle => exact h.received idle (State.receive_received cfg s msg)
  | @create t times _ _ _ =>
    rw [create_eq]
    refine h.createWith t fun batch hb => ?_
    obtain ⟨time, -, rfl⟩ := List.mem_map.mp hb
    exact preparePacket_blank _ _
  | @append t b batch _ located hb =>
    apply State.append_elim
    case full => exact h.mono rfl (fun _ => id) (by rw [located]; rfl)
    case record => exact fun pkt _ => h.record hb
  | openBatch time _ _ => exact h.openWith _ (preparePacket_blank _ _)
  | @appendNew t b batch _ opened hb =>
    apply State.appendNew_elim
    case refused => exact h.mono rfl (fun _ => id) (by rw [opened]; rfl)
    case record => exact fun pkt _ => h.record hb
  | push now _ appended _ _ => exact h.mono rfl (fun _ => id) (by rw [appended]; rfl)
  | @keep t b batch _ appended hb _ =>
    refine ⟨fun b' x hx none => ?_, h.frames⟩
    rcases h.batches b' x hx none with zero | ⟨untimed, -⟩
    · exact .inl zero
    · exact .inr ⟨untimed, nofun⟩
  | @finish t b item batch _ pushed hb =>
    have zero := h.held hb (by rw [pushed]; rfl)
    exact h.write hb rfl rfl zero (fun _ _ => nofun)
  | expire now _ idle => exact h.mono rfl (fun f hf => State.frames_expire idle now ▸ hf) rfl
  | flushBatch _ timer free hb _ =>
    exact h.flushBatch timed timer free hb (holds _ (List.mem_of_getElem? hb))
  | flush _ done => exact h.mono rfl (fun f hf => State.frames_flush done ▸ hf) rfl
  | evict _ _ =>
    apply State.evict_elim
    case crash => exact fun _ => h.mono rfl (fun _ => id) rfl
    case gone => exact fun heap _ => h.mono rfl (fun _ => id) rfl
  | shortBuffer | snapshot | done | visit | readTime | fresh => exact h.mono rfl (fun _ => id) rfl

theorem Blank.init : Blank State.init := ⟨nofun, nofun⟩

/-! ## The invariant -/

/-- What holds between any two sections, for a buffer with room for the header. -/
structure Sound (cfg : Config) (s : State) : Prop where
  timed : Timed s
  books : Books s
  written : Written cfg s
  blank : Blank s

theorem Sound.step (room : headerSize ≤ cfg.bufferSize) (h : Sound cfg s) {e : Event}
    (untimed : EvictsUntimed s e) (move : Step cfg s e s') : Sound cfg s' where
  timed := h.timed.step untimed move
  books := h.books.step move
  written := h.written.step move
  blank := h.blank.step h.timed (h.written.holds room) move

theorem sound_of_run (room : headerSize ≤ cfg.bufferSize)
    (run : Run (Step cfg) EvictsUntimed State.init s) : Sound cfg s := by
  refine run.invariant (fun s e s' h untimed move => h.step room untimed move) ?_
  exact ⟨Timed.init, Books.init, Written.init, Blank.init⟩

end

/-- A request of 128 bytes along three hops, for a port of the origin. -/
def request (port : UInt16) (userID : UInt32) : AggregatorMsg where
  emerge := false
  routingKey := "10.0.0.1,10.0.0.2,10.0.0.3"
  protocol := "tcp"
  port := port
  hops := ["10.0.0.1", "10.0.0.2", "10.0.0.3"]
  nextHop := some 167772162
  userID := userID
  data := List.replicate 128 0

/-- A request along another path. -/
def otherRequest (port : UInt16) (userID : UInt32) : AggregatorMsg :=
  { request port userID with
    routingKey := "10.0.0.1,10.0.0.4,10.0.0.3"
    hops := ["10.0.0.1", "10.0.0.4", "10.0.0.3"]
    nextHop := some 167772164 }

end SkyAccel.Aggregator
