import SkyAccel.Aggregator.LiveRemovals
import SkyAccel.Aggregator.Isolation
import SkyAccel.Aggregator.Outgoing

/-!
# Whose frame a record leaves in

Batches are found by routing key, and a frame has the header and the next hop of the message
that opened its batch. So much is kept whatever the goroutines of the worker do, evictions
included (`Attributed.step`). Where messages with one key agree on header and next hop
(`Keyed`), every record leaves under those of its own message.
-/

namespace SkyAccel.Aggregator

open Tunnel
open scoped List

/-- The batch was opened for a message in `Q`, and took messages with the same key only. -/
structure Batch.Labelled (cfg : Config) (Q : AggregatorMsg → Prop) (batch : Batch) : Prop where
  opened : ∃ msg, Q msg ∧ emerges cfg msg = false ∧ msg.routingKey = batch.routingKey ∧
    msg.nextHop = batch.nextHop ∧ BatchPacket cfg msg batch.pkt (records batch.log)
  log : ∀ t ∈ batch.log, Q t.msg ∧ emerges cfg t.msg = false ∧
    t.msg.routingKey = batch.routingKey

/-- The frame is that of an urgent message in `Q`, or of a batch of messages in `Q`. -/
inductive SendInfo.From (cfg : Config) (Q : AggregatorMsg → Prop) (f : SendInfo) : Prop
  | urgent {t : Ticket} : Q t.msg → emerges cfg t.msg = true → emergeFrame cfg t.msg = some f.p →
      f.log = [t] → f.next = t.msg.nextHop → From cfg Q f
  | batch {batch : Batch} : batch.Labelled cfg Q → f = batch.sendInfo → From cfg Q f

structure Labelled (cfg : Config) (Q : AggregatorMsg → Prop) (s : State) : Prop where
  batches : ∀ batch ∈ s.mem, batch.Labelled cfg Q
  waiting : ∀ t ∈ s.handler.waiting, Q t.msg ∧ emerges cfg t.msg = false
  target : ∀ t b, s.handler.target = some (t, b) → ∀ batch, s.mem[b]? = some batch →
    batch.routingKey = t.msg.routingKey
  frames : ∀ f ∈ s.frames, f.From cfg Q

section
variable {cfg : Config} {Q : AggregatorMsg → Prop} {s s' : State}

/-! ## Frames -/

/-- The header of a frame is that of one message, whose key all its records have. It is built
for each of them whose header it is. -/
theorem SendInfo.From.opener {f : SendInfo} (h : f.From cfg Q) {t : Ticket} (mem : t ∈ f.log) :
    ∃ msg p body, Q msg ∧ Q t.msg ∧ msg.routingKey = t.msg.routingKey ∧
      f.next = msg.nextHop ∧ HeaderOf msg p ∧ f.p = p.wire body ∧
      body.length = p.payloadLen.toNat ∧
      (HeaderOf t.msg p → FrameOf cfg t.msg (records f.log) f.p) := by
  have cut : ∀ subs : List SubPacket,
      ((encodeAll subs).take ((encodeAll subs).length % 65536)).length =
        (encodeAll subs).length % 65536 := by
    intro subs
    rw [List.length_take, min_eq_left (Nat.mod_le _ _)]
  cases h with
  | @urgent t' own urgent built log next =>
    obtain rfl := List.mem_singleton.mp (log ▸ mem)
    have frame : FrameOf cfg t.msg (records f.log) f.p := by
      rw [log]
      exact .emerge urgent built
    obtain ⟨p, header, field, bytes⟩ := frame.wire
    exact ⟨t.msg, p, _, own, own, rfl, next, header, bytes, (cut _).trans field.symm,
      fun _ => frame⟩
  | @batch batch labelled made =>
    subst made
    obtain ⟨msg, own, -, key, next, life⟩ := labelled.opened
    obtain ⟨own', batched, key'⟩ := labelled.log t mem
    have carried : t.msg.sub ∈ records batch.log := List.mem_map_of_mem mem
    have some := List.ne_nil_of_mem carried
    obtain ⟨holds, length⟩ := life.holds (life.room some)
    obtain ⟨field, bytes⟩ := holds.frame_cut (length some)
    exact ⟨msg, batch.pkt, _, own, own', key.trans key'.symm, next.symm, life.header, bytes,
      (cut _).trans field.symm, fun header => .batch batched (life.of_header header) carried⟩

/-- Batched messages in `Q` with one routing key have one header and one next hop. -/
def Keyed (cfg : Config) (Q : AggregatorMsg → Prop) : Prop :=
  ∀ msg msg' : AggregatorMsg, Q msg → Q msg' → emerges cfg msg = false →
    emerges cfg msg' = false → msg.routingKey = msg'.routingKey →
    msg.nextHop = msg'.nextHop ∧ ∀ p : Packet, HeaderOf msg p → HeaderOf msg' p

/-- The frame carries the records of its log, each under the header and to the next hop of its
own message, and the messages are in `Q`. -/
def SendInfo.CarriesOwn (Q : AggregatorMsg → Prop) (f : SendInfo) : Prop :=
  ∃ p : Packet, p.payloadLen.toNat = (encodeAll (records f.log)).length ∧
    f.p = p.wire (encodeAll (records f.log)) ∧
    ∀ t ∈ f.log, Q t.msg ∧ HeaderOf t.msg p ∧ f.next = t.msg.nextHop

/-- Every record of a batch has the key of the message that opened it, and so its header. -/
theorem SendInfo.From.carriesOwn {f : SendInfo} (h : f.From cfg Q) (keyed : Keyed cfg Q)
    (low : headerSize ≤ cfg.bufferSize) (high : cfg.bufferSize ≤ 65559)
    (timeout : 20 < cfg.batchTimeoutMs) (some : f.log ≠ []) : f.CarriesOwn Q := by
  cases h with
  | @urgent t own urgent built log next =>
    obtain ⟨msg, p, rfl, header, length, bytes⟩ :=
      carriesFor_emerge (Q := fun msg => msg = t.msg) high timeout log rfl urgent built
    refine ⟨p, length, bytes, fun x mem => ?_⟩
    obtain rfl := List.mem_singleton.mp (log ▸ mem)
    exact ⟨own, header, next⟩
  | @batch batch labelled made =>
    subst made
    obtain ⟨first, own, batched, key, next, life⟩ := labelled.opened
    obtain ⟨msg, p, rfl, header, length, bytes⟩ :=
      carriesFor_batch (Q := fun m => m = first) low high rfl life (fun none => absurd none some)
    refine ⟨p, length, bytes, fun t mem => ?_⟩
    obtain ⟨own', batched', key'⟩ := labelled.log t mem
    obtain ⟨hop, alike⟩ := keyed msg t.msg own own' batched batched' (key.trans key'.symm)
    exact ⟨own', alike p header, next.symm.trans hop⟩

/-! ## Steps -/

theorem Labelled.mono (h : Labelled cfg Q s) (mem : s'.mem = s.mem)
    (waiting : ∀ t ∈ s'.handler.waiting, t ∈ s.handler.waiting)
    (target : ∀ t b, s'.handler.target = some (t, b) → s.handler.target = some (t, b))
    (frames : s'.frames = s.frames) : Labelled cfg Q s' where
  batches := mem ▸ h.batches
  waiting t there := h.waiting t (waiting t there)
  target t b there batch hb := h.target t b (target t b there) batch (mem ▸ hb)
  frames := frames ▸ h.frames

/-- A batch from the list of the message's key has that key. -/
theorem Linked.located (linked : Linked s) {key : String} {b : Nat} (listed : b ∈ s.bList key)
    {batch : Batch} (hb : s.mem[b]? = some batch) : batch.routingKey = key := by
  obtain ⟨batch', found, own⟩ := (linked.filed_bList key).own b listed
  obtain rfl := Option.some.inj (hb.symm.trans found)
  exact own

theorem Labelled.received (h : Labelled cfg Q s) (linked : Linked s) {msg : AggregatorMsg}
    (own : Q msg) : Labelled cfg Q (s.receive cfg msg) := by
  apply State.receive_elim
  case refused => exact h.mono rfl (fun _ => id) (fun _ _ => id) rfl
  case urgent =>
    intro p urgent built
    refine ⟨h.batches, h.waiting, h.target, fun f there => ?_⟩
    obtain there | rfl := State.mem_frames_urgent there
    · exact h.frames f there
    · exact .urgent (t := ⟨s.seq, msg⟩) own urgent built rfl rfl
  case absent =>
    exact fun later _ => ⟨h.batches, by simp [Handler.waiting, own, later],
      by simp [Handler.target], h.frames⟩
  case located =>
    intro b later found
    refine ⟨h.batches, by simp [Handler.waiting, own, later], ?_, h.frames⟩
    rintro t b' ⟨⟩ batch hb
    exact linked.located (pick_mem found) hb

/-- New batches are opened for the message that waits, and the one chosen has its key. -/
theorem Labelled.alloc (h : Labelled cfg Q s) (s' : State) (linked' : Linked s') {t : Ticket}
    (waits : t ∈ s.handler.waiting) (times : List Int)
    (mem : s'.mem = s.mem ++ times.map (newBatch cfg t.msg)) (frames : s'.frames = s.frames)
    (waiting : ∀ x ∈ s'.handler.waiting, x = t)
    (target : ∀ t' b, s'.handler.target = some (t', b) →
      t' = t ∧ b ∈ s'.bList t.msg.routingKey) : Labelled cfg Q s' where
  batches batch hb := by
    obtain hb | hb := List.mem_append.mp (mem ▸ hb)
    · exact h.batches batch hb
    · obtain ⟨time, -, rfl⟩ := List.mem_map.mp hb
      obtain ⟨own, batched⟩ := h.waiting t waits
      refine ⟨⟨t.msg, own, batched, rfl, rfl, ?_⟩, by simp [newBatch]⟩
      exact (newBatch_written batched time).life.elim fun msg life =>
        life.of_header (preparePacket_header _)
  waiting x there := waiting x there ▸ h.waiting t waits
  target t' b there batch hb := by
    obtain ⟨rfl, listed⟩ := target t' b there
    exact linked'.located listed hb
  frames := frames ▸ h.frames

theorem Labelled.set (h : Labelled cfg Q s) {b : Nat} {batch new : Batch}
    (hb : s.mem[b]? = some batch) (mem : s'.mem = s.mem.set b new)
    (labelled : new.Labelled cfg Q) (key : new.routingKey = batch.routingKey)
    (waiting : ∀ t ∈ s'.handler.waiting, t ∈ s.handler.waiting)
    (target : ∀ t b', s'.handler.target = some (t, b') → s.handler.target = some (t, b'))
    (frames : ∀ f ∈ s'.frames, f ∈ s.frames ∨ f.From cfg Q) : Labelled cfg Q s' where
  batches x there := by
    obtain there | rfl := List.mem_or_eq_of_mem_set (mem ▸ there)
    · exact h.batches x there
    · exact labelled
  waiting t there := h.waiting t (waiting t there)
  target t b' there x hx := by
    rw [mem, Store.getElem?_set hb] at hx
    split at hx
    · rename_i same
      obtain rfl := Option.some.inj hx
      exact key.trans (h.target t b' (target t b' there) batch (same ▸ hb))
    · exact h.target t b' (target t b' there) x hx
  frames f there := (frames f there).elim (h.frames f) id

theorem Labelled.record (h : Labelled cfg Q s) {t : Ticket} {b : Nat} {batch : Batch}
    {pkt : Packet} (waits : t ∈ s.handler.waiting) (target : s.handler.target = some (t, b))
    (hb : s.mem[b]? = some batch)
    (accepted : batch.pkt.appendUserPacket t.msg.userID t.msg.data = some pkt) :
    Labelled cfg Q { s with
      mem := s.mem.set b (batch.record pkt t)
      handler := .appended t b
      accepted := s.accepted ++ [t] } := by
  obtain ⟨own, batched⟩ := h.waiting t waits
  have labelled := h.batches batch (List.mem_of_getElem? hb)
  obtain ⟨msg, own', batched', key, next, life⟩ := labelled.opened
  have more : records (batch.record pkt t).log = records batch.log ++ [t.msg.sub] := by
    simp [records, Batch.record]
  refine h.set hb rfl ⟨⟨msg, own', batched', key, next, ?_⟩, ?_⟩ rfl
    (by simp [Handler.waiting]) (by simp [Handler.target]) (fun _ => .inl)
  · exact more ▸ life.append (buffSize_of_batched batched).2 accepted
  · intro x mem
    obtain mem | mem := List.mem_append.mp mem
    · exact labelled.log x mem
    · rw [List.mem_singleton.mp mem]
      exact ⟨own, batched, (h.target t b target batch hb).symm⟩

theorem Labelled.flushBatch (h : Labelled cfg Q s) {now : Int} {item : HeapItem}
    {rest : List HeapItem} {toSend : List SendInfo} {batch : Batch}
    (timer : s.timer = .flushing now (item :: rest) toSend)
    (hb : s.mem[item.batch]? = some batch) :
    Labelled cfg Q (s.flushBatch now item rest toSend batch) := by
  have labelled := h.batches batch (List.mem_of_getElem? hb)
  obtain ⟨msg, own, batched, key, next, life⟩ := labelled.opened
  refine h.set hb rfl ⟨⟨msg, own, batched, key, next, life.flushed⟩, by simp [Batch.reset]⟩ rfl
    (fun _ => id) (fun _ _ => id) fun f there => ?_
  rw [State.frames_flushBatch timer] at there
  obtain there | there := List.mem_append.mp there
  · exact .inl there
  · exact .inr (.batch labelled (List.mem_singleton.mp there))

theorem Labelled.step (h : Labelled cfg Q s) (linked : Linked s) (linked' : Linked s') {e : Event}
    (own : ∀ msg ∈ e.message, Q msg) (move : Step cfg s e s') : Labelled cfg Q s' := by
  cases move with
  | receive msg _ _ => exact h.received linked (own msg rfl)
  | @create t times _ absent _ =>
    refine h.alloc (s.create cfg t times) linked' (by simp [absent, Handler.waiting]) times rfl rfl
      ?_ ?_
    · intro x there
      obtain idle | ⟨b', listed, located⟩ := s.create_handler cfg t times
      · simp [idle, Handler.waiting] at there
      · simpa [located, Handler.waiting] using there
    · intro t' b target
      obtain idle | ⟨b', listed, located⟩ := s.create_handler cfg t times
      · simp [idle, Handler.target] at target
      · rw [located] at target
        obtain ⟨rfl, rfl⟩ := Prod.mk.inj (Option.some.inj target)
        exact ⟨rfl, listed⟩
  | @append t b batch _ located hb =>
    apply State.append_elim
    case full =>
      exact h.mono rfl (by simp [located, Handler.waiting]) (by simp [Handler.target]) rfl
    case record =>
      exact fun pkt accepted => h.record (by simp [located, Handler.waiting])
        (by simp [located, Handler.target]) hb accepted
  | @openBatch t time _ full =>
    refine h.alloc (s.openBatch cfg t time) linked' (by simp [full, Handler.waiting]) [time] rfl rfl
      (by simp [State.openBatch, Handler.waiting]) ?_
    rintro t' b ⟨⟩
    exact ⟨rfl, by simp [State.bList, State.openBatch]⟩
  | @appendNew t b batch _ opened hb =>
    apply State.appendNew_elim
    case refused =>
      exact h.mono rfl (by simp [Handler.waiting]) (by simp [Handler.target]) rfl
    case record =>
      exact fun pkt accepted => h.record (by simp [opened, Handler.waiting])
        (by simp [opened, Handler.target]) hb accepted
  | push now _ _ _ _ =>
    exact h.mono rfl (by simp [State.push, Handler.waiting]) (by simp [State.push, Handler.target])
      rfl
  | keep _ _ _ _ => exact h.mono rfl (by simp [Handler.waiting]) (by simp [Handler.target]) rfl
  | @finish t b item batch _ _ hb =>
    obtain ⟨opened, log⟩ := h.batches batch (List.mem_of_getElem? hb)
    exact h.set hb rfl ⟨opened, log⟩ rfl (by simp [State.finish, Handler.waiting])
      (by simp [State.finish, Handler.target]) fun _ => .inl
  | expire now _ idle =>
    exact h.mono rfl (fun _ => id) (fun _ _ => id) (State.frames_expire idle now)
  | flushBatch _ timer _ hb _ => exact h.flushBatch timer hb
  | flush _ done => exact h.mono rfl (fun _ => id) (fun _ _ => id) (State.frames_flush done)
  | evict _ _ =>
    apply State.evict_elim
    case crash => exact fun _ => h.mono rfl (fun _ => id) (fun _ _ => id) rfl
    case gone => exact fun heap _ => h.mono rfl (fun _ => id) (fun _ _ => id) rfl
  | shortBuffer | snapshot | done | visit | readTime | fresh =>
    exact h.mono rfl (fun _ => id) (fun _ _ => id) rfl

theorem Labelled.init : Labelled cfg Q State.init := by
  constructor <;> simp [State.init, State.frames, Timer.toSend, Handler.target, Handler.waiting]

/-- What holds of a worker that takes messages in `Q` only. -/
structure Attributed (cfg : Config) (Q : AggregatorMsg → Prop) (s : State) : Prop where
  linked : Linked s
  heap : s.heap.Valid s.items
  labelled : Labelled cfg Q s

theorem Attributed.step (h : Attributed cfg Q s) {e : Event} (own : ∀ msg ∈ e.message, Q msg)
    (move : Step cfg s e s') : Attributed cfg Q s' :=
  have linked := h.linked.step h.heap move
  ⟨linked, valid_step h.heap move, h.labelled.step h.linked linked own move⟩

theorem Attributed.init : Attributed cfg Q State.init :=
  ⟨Linked.init, MinHeap.valid_nil, Labelled.init⟩

/-- In every run that takes messages in `Q` only, a frame is of one of them or of a batch. -/
theorem from_of_run (run : Run (Step cfg) (fun _ e => ∀ msg ∈ e.message, Q msg) State.init s)
    {f : SendInfo} (sent : f ∈ s.frames) : f.From cfg Q :=
  (run.invariant (fun _ _ _ h own move => h.step own move) Attributed.init).labelled.frames f sent

end

end SkyAccel.Aggregator
