import SkyAccel.Aggregator.ExactlyOnce
import SkyAccel.Aggregator.Progress

/-!
# What either version accepts and sends

`Orderly` is what holds between any two sections of a worker or a shard, in either version,
without eviction and for messages that a frame has room for: beside the links between
batches and heap and the books, that the packets of the batches hold the records of their
logs, and the frames carry them. `Intake` says which messages are accepted: those whose
record fits into a buffer of the size that the version makes for it.
-/

namespace SkyAccel.Aggregator

open Tunnel
open scoped List

/-- The frame is a header that announces the records of its log, and these. -/
def SendInfo.Carries (f : SendInfo) : Prop :=
  ∃ p : Packet, p.payloadLen.toNat = (encodeAll (records f.log)).length ∧
    f.p = p.wire (encodeAll (records f.log))

structure Batch.Packed (cfg : Config) (batch : Batch) : Prop where
  holds : Holds batch.pkt (records batch.log)
  length : batch.log ≠ [] →
    batch.pkt.payloadLen = UInt16.ofNat (encodeAll (records batch.log)).length
  size : batch.pkt.buffSize = cfg.bufferSize
  total : batch.pkt.totalBytes ≤ cfg.bufferSize

/-- The buffers of a version: those of batches have the configured size, which holds a
header and is within what a frame can be, and so are the pooled ones. -/
structure Version.Sized (v : Version) (cfg : Config) : Prop where
  low : headerSize ≤ cfg.bufferSize
  high : cfg.bufferSize ≤ 65536
  batched : ∀ msg, v.emerges msg = false → v.buffSize msg = cfg.bufferSize
  pool : ∀ n ∈ v.pool, 65536 ≤ n

/-- A frame of 64 KB has room for the record of the message. -/
def AggregatorMsg.Short (msg : AggregatorMsg) : Prop := headerSize + (6 + msg.data.length) ≤ 65536

instance (msg : AggregatorMsg) : Decidable msg.Short :=
  inferInstanceAs (Decidable (_ ≤ _))

structure Orderly (v : Version) (cfg : Config) (s : State) : Prop where
  timed : Timed s
  books : Books s
  blank : Blank s
  up : s.crashed = false
  packed : ∀ batch ∈ s.mem, batch.Packed cfg
  carried : ∀ f ∈ s.frames, f.Carries
  waiting : ∀ t ∈ s.handler.waiting, v.emerges t.msg = false
  keyed : ∀ kv ∈ s.batches, kv.2 ≠ []
  fresh : ∀ t b, s.handler = .opened t b → ∃ batch, s.mem[b]? = some batch ∧ batch.pkt.wp = headerSize

/-- The messages handled so far whose records fit are accepted, or one of them is in hand. -/
def Intake (v : Version) (handled : List AggregatorMsg) (s : State) : Prop :=
  handled.filter v.fits =
    (s.accepted ++ s.handler.waiting.filter fun t => v.fits t.msg).map Ticket.msg

theorem sized_v1 {cfg : Config} (low : headerSize ≤ cfg.bufferSize)
    (high : cfg.bufferSize ≤ 65536) : (Version.v1 cfg).Sized cfg :=
  ⟨low, high, fun _ batched => (buffSize_of_batched batched).1, nofun⟩

theorem sized_v2 {cfg : Config} (low : headerSize ≤ cfg.bufferSize)
    (high : cfg.bufferSize ≤ 65536) : (Version.v2 cfg).Sized cfg where
  low := low
  high := high
  batched msg later := by
    have long := (Bool.or_eq_false_iff.mp later).2
    exact if_neg (of_decide_eq_false long)
  pool n mem := by
    obtain rfl := Option.some.inj mem
    decide

section
variable {v : Version} {cfg : Config} {s s' : State}

/-! ## Packets -/

theorem carries_of_holds {f : SendInfo} {p : Packet} (holds : Holds p (records f.log))
    (length : p.payloadLen = UInt16.ofNat (encodeAll (records f.log)).length)
    (short : (encodeAll (records f.log)).length < 65536) (bytes : f.p = p.serializeHead.frame) :
    f.Carries := by
  obtain ⟨field, frame⟩ := holds.frame_cut length
  rw [Nat.mod_eq_of_lt short] at field frame
  rw [List.take_length] at frame
  exact ⟨p, field, bytes.trans frame⟩

theorem totalBytes_append {p p' : Packet} {userID : UInt32} {data : List UInt8}
    (room : headerSize ≤ p.wp) (accepted : p.appendUserPacket userID data = some p') :
    p'.totalBytes ≤ p.buffSize := by
  have fits := appendUserPacket_fits accepted
  rw [Packet.totalBytes, appendUserPacket_eq accepted, UInt16.toNat_ofNat']
  have := Nat.mod_le (p.wp + (6 + data.length) - headerSize) (2 ^ 16)
  omega

theorem newBatch_packed (sized : v.Sized cfg) {msg : AggregatorMsg} (later : v.emerges msg = false)
    (time : Int) : (v.newBatch msg time).Packed cfg := by
  have size := sized.batched msg later
  have low := sized.low
  rw [← size] at low
  refine ⟨preparePacket_holds low, fun some => absurd rfl some, ?_, ?_⟩
  · rw [Version.newBatch, preparePacket_eq]
    exact size
  · rw [Version.newBatch, Packet.totalBytes, preparePacket_blank]
    exact sized.low

theorem Batch.Packed.record {batch : Batch} (h : batch.Packed cfg) {t : Ticket} {pkt : Packet}
    (accepted : batch.pkt.appendUserPacket t.msg.userID t.msg.data = some pkt) :
    (batch.record pkt t).Packed cfg := by
  have more : records (batch.record pkt t).log = records batch.log ++ [t.msg.sub] := by
    simp [records, Batch.record]
  have start : headerSize ≤ batch.pkt.wp := by
    rw [h.holds.wp]
    exact Nat.le_add_right _ _
  obtain ⟨holds, length⟩ := h.holds.append accepted
  refine ⟨more ▸ holds, fun _ => more ▸ length, ?_, ?_⟩
  · rw [Batch.record, appendUserPacket_eq accepted]
    exact h.size
  · rw [← h.size]
    exact totalBytes_append start accepted

theorem Batch.Packed.reset {batch : Batch} (h : batch.Packed cfg) (now : Int) :
    (batch.reset now).Packed cfg :=
  ⟨h.holds.serializeHead.reset, fun some => absurd rfl some, h.size, h.total⟩

theorem Batch.Packed.carries {batch : Batch} (h : batch.Packed cfg) (high : cfg.bufferSize ≤ 65536)
    (some : batch.log ≠ []) : batch.sendInfo.Carries := by
  refine carries_of_holds h.holds (h.length some) ?_ rfl
  have wp := h.holds.wp
  have fits := h.holds.fits
  have size := h.size
  have : headerSize = 24 := rfl
  change (encodeAll (records batch.log)).length < 65536
  omega

/-! ## What the sections keep -/

theorem Orderly.received (h : Orderly v cfg s) (idle : s.handler = .idle) {msg : AggregatorMsg}
    (received : Received s msg s') (carried : ∀ f ∈ s'.frames, f ∈ s.frames ∨ f.Carries)
    (waiting : ∀ t ∈ s'.handler.waiting, v.emerges t.msg = false) : Orderly v cfg s' := by
  have timed := h.timed.received idle received
  have books := h.books.received idle received
  have blank := h.blank.received idle received
  have carried : ∀ f ∈ s'.frames, f.Carries := fun f hf => (carried f hf).elim (h.carried f) id
  cases received with
  | refused => exact ⟨timed, books, blank, h.up, h.packed, carried, waiting, h.keyed, h.fresh⟩
  | urgent p => exact ⟨timed, books, blank, h.up, h.packed, carried, waiting, h.keyed, h.fresh⟩
  | absent _ => exact ⟨timed, books, blank, h.up, h.packed, carried, waiting, h.keyed, nofun⟩
  | located _ => exact ⟨timed, books, blank, h.up, h.packed, carried, waiting, h.keyed, nofun⟩

/-- A message that fits into 64 KB has a frame, which fits into a pooled buffer. -/
theorem urgent_frame (sized : v.Sized cfg) {t : Ticket} (short : t.msg.Short) {pkt : Packet}
    (built : (preparePacket t.msg (v.buffSize t.msg)).appendUserPacket t.msg.userID t.msg.data =
      some pkt) :
    v.Pooled pkt ∧
      SendInfo.Carries ⟨pkt.serializeHead.frame, t.msg.routingKey, t.msg.nextHop, [t]⟩ := by
  have fits := appendUserPacket_fits built
  rw [preparePacket_eq] at fits
  have room : headerSize ≤ v.buffSize t.msg := (Nat.le_add_right _ _).trans fits
  obtain ⟨holds, length⟩ := (preparePacket_holds room).append built
  have size : (encodeAll [t.msg.sub]).length = 6 + t.msg.data.length := by
    simp [AggregatorMsg.sub]
  have : headerSize = 24 := rfl
  unfold AggregatorMsg.Short at short
  have short' : (encodeAll [t.msg.sub]).length < 65536 := by omega
  refine ⟨fun n pool => ?_, carries_of_holds holds length short' rfl⟩
  have field : pkt.payloadLen.toNat = 6 + t.msg.data.length := by
    rw [length, UInt16.toNat_ofNat', ← size]
    exact Nat.mod_eq_of_lt short'
  rw [Packet.totalBytes, field]
  exact short.trans (sized.pool n pool)

theorem Orderly.receive (h : Orderly v cfg s) (sized : v.Sized cfg) (idle : s.handler = .idle)
    {msg : AggregatorMsg} (short : msg.Short) : Orderly v cfg (v.receive s msg) := by
  have nobody : ∀ t ∈ s.handler.waiting, v.emerges t.msg = false := h.waiting
  apply Version.receive_elim
  case refused => exact fun _ _ => h.received idle (.refused : Received s msg _) (fun _ => .inl) nobody
  case urgent =>
    intro pkt _ _ built
    refine h.received idle (.urgent _ : Received s msg _) (fun f hf => ?_) nobody
    obtain hf | rfl := State.mem_frames_urgent hf
    · exact .inl hf
    · exact .inr (urgent_frame (t := ⟨s.seq, msg⟩) sized short built).2
  case crash =>
    intro pkt small built
    exact absurd (urgent_frame (t := ⟨s.seq, msg⟩) sized short built).1 small
  case absent =>
    intro later none
    refine h.received idle (.absent none) (fun _ => .inl) fun t ht => ?_
    rw [List.mem_singleton.mp ht]
    exact later
  case located =>
    intro b later found
    refine h.received idle (.located found) (fun _ => .inl) fun t ht => ?_
    rw [List.mem_singleton.mp ht]
    exact later

theorem Orderly.create (h : Orderly v cfg s) (sized : v.Sized cfg) {t : Ticket}
    (absent : s.handler = .absent t) {times : List Int} (some : times ≠ []) :
    Orderly v cfg (v.create s t times) := by
  have later : v.emerges t.msg = false := h.waiting t (by rw [absent]; exact List.mem_cons_self)
  have fresh : ∀ batch ∈ times.map (v.newBatch t.msg), batch.heapItem = none ∧ batch.log = [] :=
    fresh_of_map fun _ => ⟨rfl, rfl⟩
  constructor
  · exact h.timed.createWith absent fresh
  · exact h.books.createWith absent fun batch hb => (fresh batch hb).2
  · refine h.blank.createWith t fun batch hb => ?_
    obtain ⟨time, -, rfl⟩ := List.mem_map.mp hb
    exact preparePacket_blank _ _
  · exact h.up
  · intro batch hb
    obtain hb | hb := List.mem_append.mp hb
    · exact h.packed batch hb
    · obtain ⟨time, -, rfl⟩ := List.mem_map.mp hb
      exact newBatch_packed sized later time
  · exact h.carried
  · intro t' ht'
    obtain idle | ⟨b, -, located⟩ := s.createWith_handler t (times.map (v.newBatch t.msg))
    · rw [Version.create, idle] at ht'
      cases ht'
    · rw [Version.create, located] at ht'
      rw [List.mem_singleton.mp ht']
      exact later
  · intro kv hkv
    obtain hkv | rfl := mem_putNew hkv
    · exact h.keyed kv hkv
    · simpa using some
  · intro t' b opened
    obtain idle | ⟨b, -, located⟩ := s.createWith_handler t (times.map (v.newBatch t.msg))
    · rw [Version.create, idle] at opened
      cases opened
    · rw [Version.create, located] at opened
      cases opened

theorem Orderly.openBatch (h : Orderly v cfg s) (sized : v.Sized cfg) {t : Ticket}
    (full : s.handler = .full t) (time : Int) : Orderly v cfg (v.openBatch s t time) := by
  have later : v.emerges t.msg = false := h.waiting t (by rw [full]; exact List.mem_cons_self)
  constructor
  · exact h.timed.openWith full ⟨rfl, rfl⟩
  · exact h.books.openWith full rfl
  · exact h.blank.openWith t (preparePacket_blank _ _)
  · exact h.up
  · intro batch hb
    obtain hb | hb := List.mem_append.mp hb
    · exact h.packed batch hb
    · rw [List.mem_singleton.mp hb]
      exact newBatch_packed sized later time
  · exact h.carried
  · intro t' ht'
    rw [List.mem_singleton.mp ht']
    exact later
  · intro kv hkv
    obtain rfl | hkv := List.mem_cons.mp hkv
    · exact List.append_ne_nil_of_right_ne_nil _ (List.cons_ne_nil _ _)
    · exact h.keyed kv (List.mem_of_mem_filter hkv)
  · rintro t' b ⟨⟩
    refine ⟨v.newBatch t.msg time, List.getElem?_concat_length, ?_⟩
    rw [Version.newBatch, preparePacket_eq]
    rfl

theorem Orderly.ready (h : Orderly v cfg s) (sized : v.Sized cfg) : v.Ready s := by
  refine ⟨h.timed, h.up, fun batch hb => ⟨?_, fun n pool => ?_⟩⟩
  · have holds := (h.packed batch hb).holds
    rw [holds.size]
    exact holds.room
  · exact (h.packed batch hb).total.trans (sized.high.trans (sized.pool n pool))

theorem Orderly.flushBatch_v1 (h : Orderly v cfg s) (sized : v.Sized cfg) {now : Int}
    {item : HeapItem} {rest : List HeapItem} {toSend : List SendInfo} {batch : Batch}
    (timer : s.timer = .flushing now (item :: rest) toSend)
    (free : s.handler.locked ≠ some item.batch) (hb : s.mem[item.batch]? = some batch) :
    Orderly v cfg (s.flushBatch now item rest toSend batch) := by
  have packed := h.packed batch (List.mem_of_getElem? hb)
  have blank := h.blank.flushBatch h.timed timer free hb packed.holds
  have frames := State.frames_flushBatch timer batch
  constructor
  · exact h.timed.flushBatch timer free hb
  · exact h.books.flushBatch timer hb
  · exact blank
  · exact h.up
  · intro x hx
    obtain hx | rfl := List.mem_or_eq_of_mem_set hx
    · exact h.packed x hx
    · exact packed.reset now
  · intro f hf
    by_cases none : f.log = []
    · obtain ⟨p, zero, bytes⟩ := blank.frames f hf none
      refine ⟨p, ?_, ?_⟩
      · rw [zero, none]
        rfl
      · rw [bytes, none]
        rfl
    · rw [frames] at hf
      obtain hf | hf := List.mem_append.mp hf
      · exact h.carried f hf
      · obtain rfl := List.mem_singleton.mp hf
        exact packed.carries sized.high none
  · exact h.waiting
  · exact h.keyed
  · intro t b opened
    obtain ⟨x, hx, start⟩ := h.fresh t b opened
    have other : b ≠ item.batch := by
      rintro rfl
      exact free (congrArg Handler.locked opened)
    refine ⟨x, ?_, start⟩
    exact (Store.getElem?_set hb _ b).trans ((if_neg other).trans hx)

/-- Handing the frame on at once changes the order of the frames only. -/
theorem Orderly.flushBatch (h : Orderly v cfg s) (sized : v.Sized cfg) {now : Int}
    {item : HeapItem} {rest : List HeapItem} {toSend : List SendInfo} {batch : Batch}
    (timer : s.timer = .flushing now (item :: rest) toSend)
    (free : s.handler.locked ≠ some item.batch) (hb : s.mem[item.batch]? = some batch) :
    Orderly v cfg (v.flushBatch s now item rest toSend batch) := by
  have flushed := h.flushBatch_v1 sized timer free hb
  rw [Version.flushBatch, if_pos ((h.ready sized).flushable batch (List.mem_of_getElem? hb))]
  split
  · have frames : s.sent ++ [batch.sendInfo] ++ toSend ~
        s.sent ++ (toSend ++ [batch.sendInfo]) := by
      rw [List.append_assoc]
      exact List.perm_append_comm.append_left _
    refine ⟨?_, ?_, ?_, h.up, flushed.packed, ?_, h.waiting, h.keyed, flushed.fresh⟩
    · exact flushed.timed.mono rfl (.refl _) (fun _ => id) (fun _ _ => rfl) rfl flushed.timed.ref
    · exact flushed.books.mono (n := 0) (by simp [State.flushBatch]) frames rfl rfl
        (List.Sublist.refl _)
    · exact flushed.blank.mono rfl (fun f hf => frames.mem_iff.mp hf) rfl
    · exact fun f hf => flushed.carried f (frames.mem_iff.mp hf)
  · exact flushed

/-- A batch is written by `handleMsg`. -/
theorem packed_set {b : Nat} {batch : Batch} (h : ∀ batch ∈ s.mem, batch.Packed cfg)
    (new : batch.Packed cfg) : ∀ x ∈ s.mem.set b batch, x.Packed cfg := by
  intro x hx
  obtain hx | rfl := List.mem_or_eq_of_mem_set hx
  · exact h x hx
  · exact new

theorem Orderly.shared (h : Orderly v cfg s) {e : Event} (shared : e.shared = true)
    (move : Aggregator.Step cfg s e s') : Orderly v cfg s' := by
  have timed : Timed s' := by
    refine h.timed.step ?_ move
    rintro rfl
    cases shared
  have books : Books s' := h.books.step move
  have blank : Blank s' := h.blank.step h.timed (fun batch hb => (h.packed batch hb).holds) move
  cases move with
  | @append t b batch up located hb =>
    have packed := h.packed batch (List.mem_of_getElem? hb)
    have later := h.waiting t (by rw [located]; exact List.mem_cons_self)
    refine State.append_elim (P := fun s' => Timed s' → Books s' → Blank s' → Orderly v cfg s')
      (fun timed books blank => ?_) (fun pkt accepted timed books blank => ?_) timed books blank
    · refine ⟨timed, books, blank, up, h.packed, h.carried, fun t' ht' => ?_, h.keyed, nofun⟩
      rw [List.mem_singleton.mp ht']
      exact later
    · exact ⟨timed, books, blank, up, packed_set h.packed (packed.record accepted), h.carried,
        nofun, h.keyed, nofun⟩
  | @appendNew t b batch up _ hb =>
    have packed := h.packed batch (List.mem_of_getElem? hb)
    refine State.appendNew_elim (P := fun s' => Timed s' → Books s' → Blank s' → Orderly v cfg s')
      (fun timed books blank => ?_) (fun pkt accepted timed books blank => ?_) timed books blank
    · exact ⟨timed, books, blank, up, h.packed, h.carried, nofun, h.keyed, nofun⟩
    · exact ⟨timed, books, blank, up, packed_set h.packed (packed.record accepted), h.carried,
        nofun, h.keyed, nofun⟩
  | push now up _ _ _ =>
    exact ⟨timed, books, blank, up, h.packed, h.carried, nofun, h.keyed, nofun⟩
  | keep up _ _ _ => exact ⟨timed, books, blank, up, h.packed, h.carried, nofun, h.keyed, nofun⟩
  | @finish t b item batch up _ hb =>
    obtain ⟨holds, length, size, total⟩ := h.packed batch (List.mem_of_getElem? hb)
    exact ⟨timed, books, blank, up, packed_set h.packed ⟨holds, length, size, total⟩, h.carried,
      nofun, h.keyed, nofun⟩
  | expire now up idle =>
    refine ⟨timed, books, blank, up, h.packed, ?_, h.waiting, h.keyed, h.fresh⟩
    rw [State.frames_expire idle now]
    exact h.carried
  | flush up done =>
    refine ⟨timed, books, blank, up, h.packed, ?_, h.waiting, h.keyed, h.fresh⟩
    rw [State.frames_flush done]
    exact h.carried
  | _ => cases shared

/-- The message that a section takes, if it takes one. -/
def Event.message : Event → Option AggregatorMsg
  | .receive msg => some msg
  | _ => none

theorem message_of_settles {e : Event} (settles : e.settles = true) : e.message = none := by
  cases e <;> first | rfl | cases settles

theorem Orderly.step (h : Orderly v cfg s) (sized : v.Sized cfg) {e : Event}
    (short : ∀ msg ∈ e.message, msg.Short) (move : v.Step cfg s e s') : Orderly v cfg s' := by
  cases move with
  | receive msg _ idle => exact h.receive sized idle (short msg rfl)
  | @create t times _ absent length =>
    refine h.create sized absent fun none => ?_
    rw [none] at length
    exact absurd length (Nat.ne_of_lt (batchNum_pos t.msg))
  | openBatch time _ full => exact h.openBatch sized full time
  | flushBatch _ timer free hb => exact h.flushBatch sized timer free hb
  | shared shared move => exact h.shared shared move

/-- The sections that finish a message need nothing of it. -/
theorem Orderly.settle_step (h : Orderly v cfg s) (sized : v.Sized cfg) {e : Event}
    (settles : e.settles = true) (move : v.Step cfg s e s') : Orderly v cfg s' := by
  refine h.step sized ?_ move
  rw [message_of_settles settles]
  exact nofun

theorem Orderly.init : Orderly v cfg State.init :=
  ⟨Timed.init, Books.init, Blank.init, rfl, nofun, nofun, nofun, nofun, nofun⟩

/-! ## What is accepted -/

section
variable {handled : List AggregatorMsg}

/-- Sections that neither take a message in hand nor decide about it. -/
theorem Intake.mono (h : Intake v handled s) (accepted : s'.accepted = s.accepted)
    (waiting : s'.handler.waiting = s.handler.waiting) : Intake v handled s' := by
  unfold Intake
  rw [accepted, waiting]
  exact h

/-- The message in hand is decided about. -/
theorem Intake.decide_on (h : Intake v handled s) {t : Ticket} (waiting : s.handler.waiting = [t])
    (accepted : s'.accepted = s.accepted ++ if v.fits t.msg then [t] else [])
    (done : s'.handler.waiting = []) : Intake v handled s' := by
  unfold Intake at h ⊢
  rw [h, accepted, done, waiting]
  cases fits : v.fits t.msg <;> simp [fits]

theorem Intake.receive (h : Intake v handled s) (sized : v.Sized cfg) (idle : s.handler = .idle)
    {msg : AggregatorMsg} (short : msg.Short) : Intake v (handled ++ [msg]) (v.receive s msg) := by
  have before : handled.filter v.fits = s.accepted.map Ticket.msg := by
    unfold Intake at h
    rw [idle] at h
    simpa [Handler.waiting] using h
  have nobody : s.handler.waiting = [] := by
    rw [idle]
    rfl
  -- a message that waits for its batch
  have waits : ∀ handler : Handler, handler.waiting = [⟨s.seq, msg⟩] →
      Intake v (handled ++ [msg]) { s with seq := s.seq + 1, handler := handler } := by
    intro handler waiting
    unfold Intake
    rw [List.filter_append, before, waiting]
    cases fits : v.fits msg <;> simp [fits]
  apply Version.receive_elim
  case refused =>
    intro _ full
    unfold Intake
    rw [List.filter_append, before, nobody]
    simp [full]
  case urgent =>
    intro pkt _ _ built
    have fits := appendUserPacket_fits built
    rw [preparePacket_eq] at fits
    have fits : v.fits msg = true := decide_eq_true fits
    unfold Intake
    rw [List.filter_append, before, nobody]
    simp [fits]
  case crash =>
    intro pkt small built
    exact absurd (urgent_frame (t := ⟨s.seq, msg⟩) sized short built).1 small
  case absent => exact fun _ _ => waits _ rfl
  case located => exact fun b _ _ => waits _ rfl

/-- A record that a batch takes would fit into an empty one. -/
theorem Orderly.fits_of_append (h : Orderly v cfg s) (sized : v.Sized cfg) {t : Ticket} {b : Nat}
    {batch : Batch} {pkt : Packet} (waiting : t ∈ s.handler.waiting) (hb : s.mem[b]? = some batch)
    (accepted : batch.pkt.appendUserPacket t.msg.userID t.msg.data = some pkt) :
    v.fits t.msg = true := by
  have packed := h.packed batch (List.mem_of_getElem? hb)
  have fits := appendUserPacket_fits accepted
  rw [packed.size, packed.holds.wp] at fits
  refine decide_eq_true ?_
  rw [sized.batched t.msg (h.waiting t waiting)]
  omega

/-- A record that a new batch does not take does not fit. -/
theorem Orderly.not_fits_of_append (h : Orderly v cfg s) (sized : v.Sized cfg) {t : Ticket} {b : Nat}
    {batch : Batch} (opened : s.handler = .opened t b) (hb : s.mem[b]? = some batch)
    (refused : batch.pkt.appendUserPacket t.msg.userID t.msg.data = none) :
    v.fits t.msg = false := by
  obtain ⟨batch', hb', start⟩ := h.fresh t b opened
  obtain rfl := Option.some.inj (hb.symm.trans hb')
  have packed := h.packed batch (List.mem_of_getElem? hb)
  rw [appendUserPacket_eq_none, packed.size, start] at refused
  refine decide_eq_false ?_
  rw [sized.batched t.msg (h.waiting t (by rw [opened]; exact List.mem_cons_self))]
  omega

theorem Intake.shared (h : Intake v handled s) (orderly : Orderly v cfg s) (sized : v.Sized cfg)
    {e : Event} (shared : e.shared = true) (move : Aggregator.Step cfg s e s') :
    Intake v handled s' := by
  cases move with
  | @append t b batch _ located hb =>
    have waiting : s.handler.waiting = [t] := by
      rw [located]
      rfl
    have mem : t ∈ s.handler.waiting := by
      rw [waiting]
      exact List.mem_cons_self
    apply State.append_elim
    case full => exact h.mono rfl waiting.symm
    case record =>
      intro pkt accepted
      have fits := orderly.fits_of_append sized mem hb accepted
      exact h.decide_on waiting (by rw [if_pos fits]) rfl
  | @appendNew t b batch _ opened hb =>
    have waiting : s.handler.waiting = [t] := by
      rw [opened]
      rfl
    have mem : t ∈ s.handler.waiting := by
      rw [waiting]
      exact List.mem_cons_self
    unfold State.appendNew
    cases taken : batch.pkt.appendUserPacket t.msg.userID t.msg.data with
    | none =>
      have full := orderly.not_fits_of_append sized opened hb taken
      exact h.decide_on waiting (by rw [full]; exact (List.append_nil _).symm) rfl
    | some pkt =>
      have fits := orderly.fits_of_append sized mem hb taken
      exact h.decide_on waiting (by rw [if_pos fits]) rfl
  | push now _ appended _ _ => exact h.mono rfl (by rw [appended]; rfl)
  | keep _ appended _ _ => exact h.mono rfl (by rw [appended]; rfl)
  | finish _ pushed _ => exact h.mono rfl (by rw [pushed]; rfl)
  | expire => exact h.mono rfl rfl
  | flush => exact h.mono rfl rfl
  | _ => cases shared

theorem Intake.step (h : Intake v handled s) (orderly : Orderly v cfg s) (sized : v.Sized cfg)
    {e : Event} (short : ∀ msg ∈ e.message, msg.Short) (move : v.Step cfg s e s') :
    Intake v (handled ++ e.message.toList) s' := by
  cases move with
  | receive msg _ idle => exact h.receive sized idle (short msg rfl)
  | @create t times _ absent length =>
    have some : times.map (v.newBatch t.msg) ≠ [] := by
      rw [Ne, List.map_eq_nil_iff, ← List.length_eq_zero_iff, length]
      exact (batchNum_pos t.msg).ne'
    obtain ⟨b, located⟩ := createWith_located orderly.keyed t some
    simp only [Event.message, Option.toList_none, List.append_nil]
    exact h.mono rfl (by rw [Version.create, located, absent]; rfl)
  | openBatch time _ full =>
    simp only [Event.message, Option.toList_none, List.append_nil]
    exact h.mono rfl (by rw [full]; rfl)
  | flushBatch _ timer _ hb =>
    simp only [Event.message, Option.toList_none, List.append_nil]
    rw [Version.flushBatch]
    split
    · split <;> exact h.mono rfl rfl
    · exact h.mono rfl rfl
  | @shared e s' shared move =>
    have none : e.message = none := by cases e <;> first | rfl | cases shared
    rw [none, Option.toList_none, List.append_nil]
    exact h.shared orderly sized shared move

theorem Intake.init : Intake v [] State.init := rfl

/-- In the end the frames have the messages that fit. -/
theorem Orderly.sent_perm (h : Orderly v cfg s) (intake : Intake v handled s) (settled : s.Settled) :
    (s.sent.flatMap SendInfo.log).map Ticket.msg ~ handled.filter v.fits := by
  have nobody : s.handler.waiting = [] := by
    rw [settled.handler]
    rfl
  unfold Intake at intake
  rw [nobody, List.filter_nil, List.append_nil] at intake
  rw [intake]
  exact ((h.books.accepted_perm h.timed settled).map _).symm

end

end

end SkyAccel.Aggregator
