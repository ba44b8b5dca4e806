import SkyAccel.Aggregator.ExactlyOnce
import SkyAccel.Tunnel.Journey

/-!
# What becomes of a message

`handleMsg` sends a message at once or appends it to a batch. A message sent at once arrives
intact exactly if it is not empty and its record fits the 16-bit lengths
(`immediate_intact_iff`). A batched one is pending in exactly one batch when the call
returns, exactly if its record fits into an empty packet (`pending_iff`): the answer of the
append to a new batch is ignored, so a longer message is dropped, with a batch more for its
key and no error reported.
-/

namespace SkyAccel.Aggregator

open Tunnel
open scoped List

/-! ## Messages sent at once -/

/-- The frame is read from the stream and parsed into the one record of the message. -/
def Intact (msg : AggregatorMsg) (frame : List UInt8) : Prop :=
  ∃ raw p, receive frame = some raw ∧ parse raw raw.length = .ok (p, [⟨msg.userID, msg.data⟩])

theorem intact_iff {cfg : Config} {msg : AggregatorMsg} {frame : List UInt8}
    (emerge : emerges cfg msg = true) (built : emergeFrame cfg msg = some frame) :
    Intact msg frame ↔ msg.data ≠ [] ∧ 6 + msg.data.length < 65536 := by
  have made : FrameOf cfg msg [msg.sub] frame := .emerge emerge built
  have size : (encodeAll [msg.sub]).length = 6 + msg.data.length := by simp [AggregatorMsg.sub]
  obtain ⟨p, -, field, rfl⟩ := made.wire
  have length : ((encodeAll [msg.sub]).take ((encodeAll [msg.sub]).length % 65536)).length =
      p.payloadLen.toNat := by
    rw [List.length_take, field]
    exact Nat.min_eq_left (Nat.mod_le _ _)
  rw [← size, ← made.parsed_iff le_rfl]
  constructor
  · rintro ⟨raw, q, framed, parsed⟩
    rw [receive_wire p length] at framed
    obtain rfl := Option.some.inj framed
    rw [parse_wire_eq p length, length, field] at parsed
    exact (Prod.mk.inj (Except.ok.inj parsed)).2
  · intro whole
    have parsed := parse_wire_eq p length
    rw [length, field, whole] at parsed
    exact ⟨_, _, receive_wire p length, parsed⟩

/-- For a message sent at once, with any buffer size and timeout: it arrives as the one
record it was exactly if its length is between 1 and 65529. -/
theorem immediate_intact_iff {cfg : Config} {msg : AggregatorMsg} {frame : List UInt8}
    (emerge : emerges cfg msg = true) (built : emergeFrame cfg msg = some frame) :
    Intact msg frame ↔ 1 ≤ msg.data.length ∧ msg.data.length ≤ 65529 := by
  rw [intact_iff emerge built, ← List.length_pos_iff]
  omega

/-- A buffer made for the message takes it. -/
theorem emergeFrame_isSome {cfg : Config} {msg : AggregatorMsg} (now : immediate cfg msg = true) :
    ∃ frame, emergeFrame cfg msg = some frame := by
  unfold emergeFrame
  cases taken : (preparePacket msg (buffSize cfg msg)).appendUserPacket msg.userID msg.data with
  | none =>
    rw [appendUserPacket_eq_none, preparePacket_eq, buffSize, if_pos now] at taken
    simp only [newPacket] at taken
    omega
  | some pkt => exact ⟨_, rfl⟩

theorem emerges_of_immediate {cfg : Config} {msg : AggregatorMsg} (now : immediate cfg msg = true) :
    emerges cfg msg = true := by
  rw [emerges, now, Bool.or_true]

/-- A message for the origin of `request`, with any data. -/
def message (data : List UInt8) : AggregatorMsg := { request 80 7 with data := data }

theorem immediate_intact_short :
    ∃ frame, emergeFrame shipped (message [1, 2, 3]) = some frame ∧
      Intact (message [1, 2, 3]) frame := by
  have now : immediate shipped (message [1, 2, 3]) = true := by decide
  obtain ⟨frame, built⟩ := emergeFrame_isSome now
  exact ⟨frame, built, (immediate_intact_iff (emerges_of_immediate now) built).mpr (by decide)⟩

theorem not_intact_of_length {cfg : Config} {msg : AggregatorMsg} (now : immediate cfg msg = true)
    (length : msg.data.length = 0 ∨ 65530 ≤ msg.data.length) :
    ∃ frame, emergeFrame cfg msg = some frame ∧ ¬ Intact msg frame := by
  obtain ⟨frame, built⟩ := emergeFrame_isSome now
  refine ⟨frame, built, fun intact => ?_⟩
  obtain ⟨some, short⟩ := (intact_iff (emerges_of_immediate now) built).mp intact
  have := List.length_pos_iff.mpr some
  omega

/-- The empty message is lost, and so is one whose record does not fit the length field. -/
theorem immediate_not_intact :
    (∃ frame, emergeFrame shipped (message []) = some frame ∧ ¬ Intact (message []) frame) ∧
      ∃ frame, emergeFrame { shipped with batchTimeoutMs := 20 }
          (message (List.replicate 65530 0)) = some frame ∧
        ¬ Intact (message (List.replicate 65530 0)) frame :=
  ⟨not_intact_of_length (by decide) (.inl rfl),
    not_intact_of_length (Bool.or_true _) (.inr (le_of_eq List.length_replicate.symm))⟩

/-! ## Batched messages -/

/-- The record fits into a packet of the configured size that holds nothing else. -/
def Fits (cfg : Config) (msg : AggregatorMsg) : Prop :=
  headerSize + (6 + msg.data.length) ≤ cfg.bufferSize

instance (cfg : Config) (msg : AggregatorMsg) : Decidable (Fits cfg msg) :=
  inferInstanceAs (Decidable (_ ≤ _))

/-- How many batches the key of a message has. -/
def State.listed (s : State) (msg : AggregatorMsg) : Nat := (s.bList msg.routingKey).length

/-- The message in hand is decided about: a batch has its record, or it was dropped after a
batch was opened for it. -/
inductive Decided (cfg : Config) (n : Nat) (t : Ticket) (s : State) (b : Nat) : Prop
  | kept {batch : Batch} : Fits cfg t.msg → s.mem[b]? = some batch → t ∈ batch.log →
      Decided cfg n t s b
  | dropped : ¬ Fits cfg t.msg → t ∉ s.accepted → n < s.listed t.msg → Decided cfg n t s b

/-- Where the call of `handleMsg` for `t` stands. Its key had `n` batches at the start. -/
def Call (cfg : Config) (n : Nat) (t : Ticket) (s : State) : Prop :=
  match s.handler with
  | .absent t' | .located t' _ | .full t' => t' = t ∧ n ≤ s.listed t.msg
  | .opened t' b => t' = t ∧ n < s.listed t.msg ∧
      ∃ batch, s.mem[b]? = some batch ∧ batch.pkt.wp = headerSize
  | .appended t' b | .pushed t' b _ => t' = t ∧ Decided cfg n t s b
  | .idle => ∃ b, Decided cfg n t s b

section
variable {cfg : Config} {n : Nat} {t : Ticket} {s s' : State}

/-- Every key of the map has a batch. -/
theorem keyed_step (h : ∀ kv ∈ s.batches, kv.2 ≠ []) {e : Event} (move : Step cfg s e s') :
    ∀ kv ∈ s'.batches, kv.2 ≠ [] := by
  cases move with
  | receive msg _ _ =>
    exact State.receive_elim (P := fun s => ∀ kv ∈ s.batches, kv.2 ≠ []) h (fun _ _ _ => h)
      (fun _ _ => h) (fun _ _ _ => h)
  | @create t times _ _ length =>
    intro kv hkv
    obtain hkv | rfl := mem_putNew hkv
    · exact h kv hkv
    · simp [length, (batchNum_pos t.msg).ne']
  | append _ _ _ =>
    exact State.append_elim (P := fun s => ∀ kv ∈ s.batches, kv.2 ≠ []) h fun _ _ => h
  | openBatch time _ _ =>
    intro kv hkv
    obtain rfl | hkv := List.mem_cons.mp hkv
    · simp
    · exact h kv (List.mem_of_mem_filter hkv)
  | appendNew _ _ _ =>
    exact State.appendNew_elim (P := fun s => ∀ kv ∈ s.batches, kv.2 ≠ []) h fun _ _ => h
  | evict _ _ =>
    exact State.evict_elim (P := fun s => ∀ kv ∈ s.batches, kv.2 ≠ []) (fun _ => h)
      fun heap _ kv hkv => h kv (List.mem_of_mem_filter hkv)
  | _ => exact h

/-- The sections of `checkTimeout` leave the batch alone that `handleMsg` has locked. -/
theorem Decided.mono {b : Nat} (h : Decided cfg n t s b) (mem : s'.mem[b]? = s.mem[b]?)
    (accepted : s'.accepted = s.accepted) (batches : s'.batches = s.batches) :
    Decided cfg n t s' b := by
  cases h with
  | kept fits hb there => exact .kept fits (mem.trans hb) there
  | dropped long out more =>
    refine .dropped long (accepted ▸ out) ?_
    rw [State.listed, State.bList, batches]
    exact more

theorem Call.mono (h : Call cfg n t s) (handler : s'.handler = s.handler)
    (mem : ∀ b, s.handler.locked = some b → s'.mem[b]? = s.mem[b]?)
    (accepted : s'.accepted = s.accepted) (batches : s'.batches = s.batches)
    (busy : s.handler ≠ .idle) : Call cfg n t s' := by
  have listed : s'.listed t.msg = s.listed t.msg := by
    rw [State.listed, State.listed, State.bList, State.bList, batches]
  unfold Call at h ⊢
  rw [handler, listed]
  cases here : s.handler with
  | idle => exact absurd here busy
  | absent | located | full =>
    rw [here] at h
    exact h
  | opened t' b =>
    rw [here] at h mem
    obtain ⟨own, more, batch, hb, start⟩ := h
    exact ⟨own, more, batch, (mem b rfl).trans hb, start⟩
  | appended t' b =>
    rw [here] at h mem
    exact ⟨h.1, h.2.mono (mem b rfl) accepted batches⟩
  | pushed t' b item =>
    rw [here] at h mem
    exact ⟨h.1, h.2.mono (mem b rfl) accepted batches⟩

theorem fits_of_append (written : Written cfg s) {b : Nat} {batch : Batch} {pkt : Packet}
    (hb : s.mem[b]? = some batch)
    (accepted : batch.pkt.appendUserPacket t.msg.userID t.msg.data = some pkt) :
    Fits cfg t.msg := by
  obtain ⟨msg, life⟩ := (written.batches batch (List.mem_of_getElem? hb)).life
  have fits := appendUserPacket_fits accepted
  obtain ⟨size, start⟩ := life.size
  unfold Fits
  omega

/-- The record is in the log of the batch. -/
theorem decided_record (written : Written cfg s) {b : Nat} {batch : Batch} {pkt : Packet}
    (hb : s.mem[b]? = some batch)
    (accepted : batch.pkt.appendUserPacket t.msg.userID t.msg.data = some pkt) :
    Decided cfg n t { s with
      mem := s.mem.set b (batch.record pkt t)
      handler := .appended t b
      accepted := s.accepted ++ [t] } b := by
  have stored : (s.mem.set b (batch.record pkt t))[b]? = some (batch.record pkt t) := by
    rw [Store.getElem?_set hb, if_pos rfl]
  refine .kept (fits_of_append written hb accepted) stored ?_
  exact List.mem_append_right _ (List.mem_singleton_self t)

theorem Books.not_accepted (h : Books s) (waiting : t ∈ s.handler.waiting) : t ∉ s.accepted := by
  have distinct := h.distinct
  rw [List.map_append] at distinct
  intro accepted
  exact (List.nodup_append.mp distinct).2.2 _ (List.mem_map_of_mem waiting) _
    (List.mem_map_of_mem accepted) rfl

theorem listed_create (n : Nat) (absent : n ≤ s.listed t.msg) (news : List Batch) :
    n ≤ (s.createWith t news).listed t.msg := by
  refine absent.trans ?_
  simp only [State.listed, State.bList, State.createWith, State.putNew]
  cases found : s.batches.lookup t.msg.routingKey with
  | none => simp
  | some list => simp [found]

theorem Call.step (h : Call cfg n t s) (written : Written cfg s) (books : Books s)
    (keyed : ∀ kv ∈ s.batches, kv.2 ≠ []) (busy : s.handler ≠ .idle) {e : Event}
    (plain : e.evicts = false) (move : Step cfg s e s') : Call cfg n t s' := by
  cases move with
  | receive _ _ idle => exact absurd idle busy
  | @create t' times _ absent length =>
    simp only [Call, absent] at h
    obtain ⟨rfl, more⟩ := h
    have some : times.map (newBatch cfg t'.msg) ≠ [] := by
      simp [← List.length_eq_zero_iff, length, (batchNum_pos t'.msg).ne']
    obtain ⟨b, located⟩ := createWith_located keyed t' some
    rw [create_eq]
    simp only [Call, located]
    exact ⟨trivial, listed_create n more _⟩
  | @append t' b batch _ located hb =>
    simp only [Call, located] at h
    obtain ⟨rfl, more⟩ := h
    apply State.append_elim
    case full => exact ⟨rfl, more⟩
    case record => exact fun pkt accepted => ⟨rfl, decided_record written hb accepted⟩
  | @openBatch t' time _ full =>
    simp only [Call, full] at h
    obtain ⟨rfl, more⟩ := h
    refine ⟨rfl, ?_, newBatch cfg t'.msg time, List.getElem?_concat_length, ?_⟩
    · simp only [State.listed, State.bList] at more
      simp only [State.listed, State.bList, State.openBatch, List.lookup_cons_self,
        Option.getD_some, List.length_append, List.length_singleton]
      omega
    · rw [newBatch, preparePacket_eq]
      rfl
  | @appendNew t' b batch _ opened hb =>
    simp only [Call, opened] at h
    obtain ⟨rfl, more, batch', hb', start⟩ := h
    obtain rfl := Option.some.inj (hb.symm.trans hb')
    unfold State.appendNew
    split
    · rename_i refused
      obtain ⟨msg, life⟩ := (written.batches batch (List.mem_of_getElem? hb)).life
      rw [appendUserPacket_eq_none, start, life.size.1] at refused
      refine ⟨rfl, .dropped (Nat.not_le.mpr refused) (books.not_accepted ?_) more⟩
      rw [opened]
      exact List.mem_singleton_self _
    · rename_i pkt accepted
      exact ⟨rfl, decided_record written hb accepted⟩
  | @push t' b batch now _ appended hb _ =>
    simp only [Call, appended] at h
    obtain ⟨rfl, decided⟩ := h
    exact ⟨rfl, decided.mono rfl rfl rfl⟩
  | keep _ appended hb _ =>
    simp only [Call, appended] at h
    exact ⟨_, h.2.mono rfl rfl rfl⟩
  | @finish t' b item batch _ pushed hb =>
    simp only [Call, pushed] at h
    refine ⟨b, ?_⟩
    cases h.2 with
    | @kept batch' fits hb' there =>
      obtain rfl := Option.some.inj (hb.symm.trans hb')
      have stored :=
        (Store.getElem?_set hb { batch with heapItem := some item } b).trans (if_pos rfl)
      exact .kept fits stored there
    | dropped long out more => exact .dropped long out more
  | expire now _ idle => exact h.mono rfl (fun _ _ => rfl) rfl rfl busy
  | @flushBatch now item rest toSend batch _ timer free hb _ =>
    refine h.mono rfl (fun b locked => ?_) rfl rfl busy
    refine (Store.getElem?_set hb _ b).trans (if_neg ?_)
    rintro rfl
    exact free locked
  | shortBuffer _ _ _ _ _ => exact h.mono rfl (fun _ _ => rfl) rfl rfl busy
  | flush _ done => exact h.mono rfl (fun _ _ => rfl) rfl rfl busy
  | snapshot | done | visit | readTime | fresh | evict => cases plain

theorem Call.receive (batched : emerges cfg t.msg = false) (seq : t.seq = s.seq) :
    Call cfg (s.listed t.msg) t (s.receive cfg t.msg) := by
  have ticket : (⟨s.seq, t.msg⟩ : Ticket) = t := by rw [← seq]
  unfold State.receive
  rw [if_neg (by rw [batched]; exact Bool.false_ne_true)]
  split <;> exact ⟨ticket, le_refl _⟩

/-! ## When the call returns -/

/-- The record of a message is in the pending region of batch `b`, and the item of `b` is
one of `timers`. -/
def State.Pending (s : State) (timers : List HeapItem) (t : Ticket) (b : Nat) : Prop :=
  ∃ batch item, s.mem[b]? = some batch ∧ t ∈ batch.log ∧
    (batch.pkt.buf.take batch.pkt.wp).drop headerSize = encodeAll (records batch.log) ∧
    batch.heapItem = some item ∧ item.batch = b ∧ item ∈ timers

/-- The message is pending in exactly one batch. -/
def State.PendingOnce (s : State) (timers : List HeapItem) (t : Ticket) : Prop :=
  ∃ b, s.Pending timers t b ∧ ∀ b', s.Pending timers t b' → b' = b

theorem Books.one_batch (h : Books s) {b b' : Nat} {x y : Batch} (hx : s.mem[b]? = some x)
    (hy : s.mem[b']? = some y) (htx : t ∈ x.log) (hty : t ∈ y.log) : b' = b := by
  have once : (s.mem.flatMap Batch.log).Nodup :=
    (List.nodup_append.mp (h.once.nodup_iff.mp h.accepted_nodup)).1
  have apart := (List.nodup_flatMap.mp once).2
  obtain ⟨hb, rfl⟩ := List.getElem?_eq_some_iff.mp hx
  obtain ⟨hb', rfl⟩ := List.getElem?_eq_some_iff.mp hy
  rcases Nat.lt_trichotomy b b' with less | same | more
  · exact absurd hty (List.pairwise_iff_getElem.mp apart b b' hb hb' less htx)
  · exact same.symm
  · exact absurd htx (List.pairwise_iff_getElem.mp apart b' b hb' hb more hty)

/-- A record in a batch that nobody holds is pending, and its batch has an item. -/
theorem pending_of_log (written : Written cfg s) (timed : Timed s)
    (room : headerSize ≤ cfg.bufferSize) (idle : s.handler = .idle) {b : Nat} {batch : Batch}
    (hb : s.mem[b]? = some batch) (there : t ∈ batch.log) : s.Pending s.timers t b := by
  have free : s.handler.locked ≠ some b := by
    rw [idle]
    exact nofun
  obtain ⟨item, has⟩ := Option.ne_none_iff_exists'.mp
    ((timed.pending b batch hb (List.ne_nil_of_mem there)).resolve_right free)
  have one := timed.one b batch hb
  rw [State.itemOf_free free, has, Option.toList_some, List.perm_singleton] at one
  have mine : item ∈ s.timers.filter (·.batch = b) := by
    rw [one]
    exact List.mem_singleton_self item
  obtain ⟨timer, own⟩ := List.mem_filter.mp mine
  exact ⟨batch, item, hb, there, (written.holds room batch (List.mem_of_getElem? hb)).body, has,
    of_decide_eq_true own, timer⟩

/-- When the call for `t` has returned. -/
theorem Call.returned {s₀ : State} (call : Call cfg (s₀.listed t.msg) t s)
    (written : Written cfg s) (books : Books s) (timed : Timed s) (idle : s.handler = .idle) :
    (s.PendingOnce s.timers t ↔ Fits cfg t.msg) ∧
      (¬ Fits cfg t.msg → (∀ timers b, ¬ s.Pending timers t b) ∧ s.batches ≠ s₀.batches) := by
  simp only [Call, idle] at call
  obtain ⟨b, decided⟩ := call
  cases decided with
  | kept fits hb there =>
    have room : headerSize ≤ cfg.bufferSize := (Nat.le_add_right _ _).trans fits
    have one : s.PendingOnce s.timers t := by
      refine ⟨b, pending_of_log written timed room idle hb there, ?_⟩
      rintro b' ⟨batch', item, hb', there', -⟩
      exact books.one_batch hb hb' there there'
    exact ⟨iff_of_true one fits, fun long => absurd fits long⟩
  | dropped long out more =>
    have gone : ∀ timers b, ¬ s.Pending timers t b := by
      rintro timers b' ⟨batch, item, hb, there, -⟩
      exact out ((books.pending batch (List.mem_of_getElem? hb)).subset there)
    have changed : s.batches ≠ s₀.batches := by
      intro same
      rw [State.listed, State.listed, State.bList, State.bList, same] at more
      exact lt_irrefl _ more
    refine ⟨iff_of_false ?_ long, fun _ => ⟨gone, changed⟩⟩
    rintro ⟨b', pending, -⟩
    exact gone _ b' pending

end

/-- **No batched message is lost if its record fits into an empty packet.** For a worker that
evicts nothing, the message is pending in exactly one batch with an item when `handleMsg`
returns, exactly if it fits. The item may be one that a `checkTimeout` under way has popped;
where none is, it is in the heap. A message that does not fit is in no batch, while the
batches are not those at the start. -/
theorem pending_iff {cfg : Config} {s s₁ s' : State} {msg : AggregatorMsg}
    (run : Run (Step cfg) (fun _ e => e.evicts = false) State.init s)
    (batched : emerges cfg msg = false) (start : Step cfg s (.receive msg) s₁)
    (call : Run (Step cfg) (fun s e => s.handler ≠ .idle ∧ e.evicts = false) s₁ s')
    (returned : s'.handler = .idle) :
    (s'.PendingOnce s'.timers ⟨s.seq, msg⟩ ↔ Fits cfg msg) ∧
      (s'.timer = .idle → (s'.PendingOnce s'.heap.items ⟨s.seq, msg⟩ ↔ Fits cfg msg)) ∧
      (¬ Fits cfg msg →
        (∀ timers b, ¬ s'.Pending timers ⟨s.seq, msg⟩ b) ∧ s'.batches ≠ s.batches) := by
  have keeps : ∀ s e s', (Written cfg s ∧ Books s ∧ Timed s ∧ ∀ kv ∈ s.batches, kv.2 ≠ []) →
      e.evicts = false → Step cfg s e s' →
      Written cfg s' ∧ Books s' ∧ Timed s' ∧ ∀ kv ∈ s'.batches, kv.2 ≠ [] := by
    rintro s e s' ⟨written, books, timed, keyed⟩ plain move
    refine ⟨written.step move, books.step move, timed.step ?_ move, keyed_step keyed move⟩
    rintro rfl
    cases plain
  have before := run.invariant keeps ⟨Written.init, Books.init, Timed.init, nofun⟩
  have first := keeps s _ s₁ before rfl start
  have entered : Call cfg (s.listed msg) ⟨s.seq, msg⟩ s₁ := by
    cases start with
    | receive _ _ _ => exact Call.receive (t := ⟨s.seq, msg⟩) batched rfl
  obtain ⟨ended, written, books, timed, -⟩ := call.invariant
    (P := fun s' => Call cfg (s.listed msg) ⟨s.seq, msg⟩ s' ∧ Written cfg s' ∧ Books s' ∧
      Timed s' ∧ ∀ kv ∈ s'.batches, kv.2 ≠ [])
    (fun s e s' h ok move => ⟨h.1.step h.2.1 h.2.2.1 h.2.2.2.2 ok.1 ok.2 move,
      keeps s e s' h.2 ok.2 move⟩) ⟨entered, first⟩
  obtain ⟨once, lost⟩ := ended.returned written books timed returned
  refine ⟨once, fun quiet => ?_, lost⟩
  have same : s'.timers = s'.heap.items := by
    rw [State.timers, quiet]
    exact List.append_nil _
  rw [← same]
  exact once

/-- The sections of a call, as long as it has not returned. -/
theorem call_of_checked (cfg : Config) {s : State} (es : List Event) {P : State → Prop}
    (h : ∃ s' ∈ es.foldlM (checked (State.next cfg) fun s e => s.handler ≠ .idle ∧ e.evicts = false)
      s, P s') :
    ∃ s', Run (Step cfg) (fun s e => s.handler ≠ .idle ∧ e.evicts = false) s s' ∧ P s' := by
  obtain ⟨s', run, holds⟩ := Run.exists_of_checked es h
  exact ⟨s', run.imp fun _ _ _ _ move => step_of_next cfg move, holds⟩

/-- A packet with a message of 5000 bytes and one along another path are pending. The next
message of the first path has no room there, and is pending in a batch of its own. -/
theorem pending_full_batch :
    ∃ s s', Run (Step shipped) (fun _ e => e.evicts = false) State.init s ∧
      Run (Step shipped) (fun s e => s.handler ≠ .idle ∧ e.evicts = false)
        (s.receive shipped (request 80 9)) s' ∧ s'.handler = .idle ∧
      s'.mem.map (fun batch => batch.log.map Ticket.seq) = [[0], [1], [2]] ∧
      s'.PendingOnce s'.heap.items ⟨2, request 80 9⟩ := by
  obtain ⟨s, run, seq, alive, free, next⟩ : ∃ s, Run (Moves (State.next shipped))
      (fun _ e => e.evicts = false) State.init s ∧ s.seq = 2 ∧ s.crashed = false ∧
      s.handler = .idle ∧
      ∃ s' ∈ [Event.append, .openBatch 0, .appendNew, .push 0, .unlock].foldlM
        (checked (State.next shipped) fun s e => s.handler ≠ .idle ∧ e.evicts = false)
        (s.receive shipped (request 80 9)),
        s'.handler = .idle ∧ s'.timer.expired = [] ∧
          s'.mem.map (fun batch => batch.log.map Ticket.seq) = [[0], [1], [2]] := by
    apply Run.exists_of_checked [.receive (message (List.replicate 5000 0)), .create [0], .append,
      .push 0, .unlock, .receive (otherRequest 80 8), .create [0], .append, .push 0, .unlock]
    decide +kernel
  obtain ⟨s', call, idle, calm, logs⟩ := call_of_checked shipped _ next
  have run := run.imp fun _ _ _ _ => step_of_next shipped
  have pending := pending_iff run (by decide +kernel) (.receive (request 80 9) alive free) call idle
  have once := pending.1.mpr (by decide +kernel)
  have same : s'.timers = s'.heap.items := by simp [State.timers, calm]
  rw [seq, same] at once
  exact ⟨s, s', run, call, idle, logs, once⟩

/-- A message of 5091 bytes, one more than an empty packet takes: the call returns with an
empty batch more in the map and in the heap, and the message is nowhere. -/
theorem long_message_dropped :
    ∃ s', Run (Step shipped) (fun s e => s.handler ≠ .idle ∧ e.evicts = false)
        (State.init.receive shipped (message (List.replicate 5091 0))) s' ∧
      s'.handler = .idle ∧ s'.mem.map Batch.log = [[], []] ∧ s'.heap.items.length = 1 ∧
      s'.batches ≠ State.init.batches ∧
      ∀ timers b, ¬ s'.Pending timers ⟨0, message (List.replicate 5091 0)⟩ b := by
  obtain ⟨s', call, idle, logs, items, batches⟩ := call_of_checked shipped
    [.create [0], .append, .openBatch 0, .appendNew, .push 0, .unlock]
    (s := State.init.receive shipped (message (List.replicate 5091 0)))
    (P := fun s' => s'.handler = .idle ∧ s'.mem.map Batch.log = [[], []] ∧
      s'.heap.items.length = 1 ∧ s'.batches ≠ State.init.batches) (by decide +kernel)
  refine ⟨s', call, idle, logs, items, batches, ?_⟩
  rintro timers b ⟨batch, item, hb, there, -⟩
  have listed := List.mem_map_of_mem (f := Batch.log) (List.mem_of_getElem? hb)
  rw [logs] at listed
  rw [show batch.log = [] by simpa using listed] at there
  cases there

end SkyAccel.Aggregator
