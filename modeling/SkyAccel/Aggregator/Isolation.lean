import SkyAccel.Aggregator.ExactlyOnce

/-!
# Records leave under the header of their own message

Batches are found by routing key alone, while port and protocol are those of the message
that opened the batch. Where the batch found always has the header of the message
(`Agrees`), every record leaves in a frame built for its own path, port and protocol, so
that what is shown about such frames applies to it (`frameOf_of_run`).
-/

namespace SkyAccel.Aggregator

open Tunnel
open scoped List

/-- The batch that is found for a message has its header. -/
def Agrees (cfg : Config) (s : State) (e : Event) : Prop :=
  ∀ msg, e = .receive msg → emerges cfg msg = false → ∀ b batch, s.find msg = some b →
    s.mem[b]? = some batch → HeaderOf msg batch.pkt

instance (msg : AggregatorMsg) (p : Packet) : Decidable (HeaderOf msg p) :=
  decidable_of_iff (p.hopPos = 1 ∧ p.hopIP = hopSlots msg.hops ∧ p.port = msg.port ∧
      p.protocol = protocolByte msg.protocol)
    ⟨fun h => ⟨h.1, h.2.1, h.2.2.1, h.2.2.2⟩, fun h => ⟨h.hopPos, h.hopIP, h.port, h.protocol⟩⟩

theorem agrees_receive {cfg : Config} {s : State} {msg : AggregatorMsg} :
    Agrees cfg s (.receive msg) ↔ (emerges cfg msg = false → ∀ b ∈ s.find msg,
      ∀ batch ∈ s.mem[b]?, HeaderOf msg batch.pkt) := by
  constructor
  · exact fun agrees batched b found batch hb => agrees msg rfl batched b batch found hb
  · rintro same _ ⟨⟩ batched b batch found hb
    exact same batched b found batch hb

/-- Only the messages that come in have to agree. -/
theorem agrees_of_no_message {cfg : Config} {s : State} {e : Event}
    (other : ∀ msg, e ≠ .receive msg) : Agrees cfg s e :=
  fun msg received => absurd received (other msg)

instance (cfg : Config) (s : State) : (e : Event) → Decidable (Agrees cfg s e)
  | .receive _ => decidable_of_iff _ agrees_receive.symm
  | .create _ | .append | .openBatch _ | .appendNew | .push _ | .unlock | .expire _ | .flushBatch
  | .flush | .snapshot _ | .visit | .readTime | .evict => isTrue (agrees_of_no_message (by simp))

/-- The batch that `handleMsg` is about to append to. -/
def Handler.target : Handler → Option (Ticket × Nat)
  | .located t b => some (t, b)
  | .opened t b => some (t, b)
  | _ => none

structure Separate (cfg : Config) (s : State) : Prop where
  pending : ∀ batch ∈ s.mem, ∀ t ∈ batch.log, HeaderOf t.msg batch.pkt
  flushed : ∀ f ∈ s.frames, ∀ t ∈ f.log, FrameOf cfg t.msg (records f.log) f.p
  target : ∀ t b, s.handler.target = some (t, b) → ∀ batch, s.mem[b]? = some batch →
    HeaderOf t.msg batch.pkt
  absent : ∀ t, s.handler = .absent t → s.bList t.msg.routingKey = []

section
variable {cfg : Config} {s s' : State}

/-! ## The map of batches -/

theorem bList_of_find {msg : AggregatorMsg} (h : s.find msg = none) :
    s.bList msg.routingKey = [] := by
  by_contra some
  have long := List.length_pos_of_ne_nil some
  unfold State.find pick at h
  split at h
  · exact absurd (List.getElem?_eq_none_iff.mp h) (by omega)
  · exact absurd (List.getElem?_eq_none_iff.mp h) (not_le.mpr (Nat.mod_lt _ long))

/-- For a key without batches, `handleMsg` takes one of those it makes. -/
theorem create_located {t t' : Ticket} {times : List Int} {b : Nat}
    (absent : s.bList t.msg.routingKey = [])
    (located : (s.create cfg t times).handler = .located t' b) : t' = t ∧ s.mem.length ≤ b := by
  rcases s.create_handler cfg t times with idle | ⟨b', chosen, handler⟩
  · rw [idle] at located
    cases located
  · rw [handler] at located
    obtain ⟨rfl, rfl⟩ := Handler.located.inj located
    refine ⟨rfl, ?_⟩
    unfold State.putNew at chosen
    split at chosen
    · rename_i v found
      have none : v = [] := by simpa [State.bList, found] using absent
      rw [found, none] at chosen
      cases chosen
    · rw [List.lookup_cons_self] at chosen
      exact (List.mem_range'_1.mp chosen).1

/-! ## Steps -/

theorem Separate.receive (h : Separate cfg s) {msg : AggregatorMsg}
    (agrees : Agrees cfg s (.receive msg)) : Separate cfg (s.receive cfg msg) := by
  apply State.receive_elim
  case refused => exact ⟨h.pending, h.flushed, h.target, h.absent⟩
  case urgent =>
    intro p urgent built
    refine ⟨h.pending, fun f hf => ?_, h.target, h.absent⟩
    rcases State.mem_frames_urgent hf with hf | rfl
    · exact h.flushed f hf
    · intro t ht
      rw [List.mem_singleton.mp ht]
      exact .emerge urgent built
  case absent =>
    intro _ none
    refine ⟨h.pending, h.flushed, nofun, ?_⟩
    rintro t ⟨⟩
    exact bList_of_find none
  case located =>
    intro b batched found
    refine ⟨h.pending, h.flushed, ?_, nofun⟩
    rintro t b' ⟨⟩ batch hb
    exact agrees msg rfl batched b batch found hb

/-- New batches are empty, and the one chosen for a message has its header. -/
theorem Separate.alloc (h : Separate cfg s) (s' : State) {msg : AggregatorMsg} (times : List Int)
    (mem : s'.mem = s.mem ++ times.map (newBatch cfg msg)) (frames : s'.frames = s.frames)
    (target : ∀ t b, s'.handler.target = some (t, b) → t.msg = msg ∧ s.mem.length ≤ b)
    (absent : ∀ t, s'.handler ≠ .absent t) : Separate cfg s' := by
  have new : ∀ batch ∈ times.map (newBatch cfg msg), batch.log = [] ∧ HeaderOf msg batch.pkt := by
    intro batch hb
    obtain ⟨time, -, rfl⟩ := List.mem_map.mp hb
    exact ⟨rfl, preparePacket_header _⟩
  refine ⟨?_, ?_, ?_, fun t here => absurd here (absent t)⟩
  · intro batch hb t ht
    rw [mem] at hb
    rcases List.mem_append.mp hb with hb | hb
    · exact h.pending batch hb t ht
    · rw [(new batch hb).1] at ht
      cases ht
  · rw [frames]
    exact h.flushed
  · intro t b here batch hb
    obtain ⟨rfl, far⟩ := target t b here
    rw [mem] at hb
    rcases Store.getElem?_append hb with hb | ⟨-, hb⟩
    · exact absurd (Store.lt_of_some hb) (Nat.not_lt.mpr far)
    · exact (new batch hb).2

theorem Separate.record (h : Separate cfg s) {t : Ticket} {b : Nat} {batch : Batch} {pkt : Packet}
    (target : s.handler.target = some (t, b)) (hb : s.mem[b]? = some batch)
    (accepted : batch.pkt.appendUserPacket t.msg.userID t.msg.data = some pkt) :
    Separate cfg { s with
      mem := s.mem.set b (batch.record pkt t)
      handler := .appended t b
      accepted := s.accepted ++ [t] } := by
  refine ⟨?_, h.flushed, nofun, nofun⟩
  intro x hx t' ht'
  rcases List.mem_or_eq_of_mem_set hx with hx | rfl
  · exact h.pending x hx t' ht'
  · have own : HeaderOf t'.msg batch.pkt := by
      rcases List.mem_append.mp ht' with ht' | ht'
      · exact h.pending batch (List.mem_of_getElem? hb) t' ht'
      · rw [List.mem_singleton.mp ht']
        exact h.target t b target batch hb
    exact own.append accepted

theorem Separate.flushBatch (h : Separate cfg s) (written : Written cfg s) {now : Int}
    {item : HeapItem} {rest : List HeapItem} {toSend : List SendInfo} {batch : Batch}
    (timer : s.timer = .flushing now (item :: rest) toSend) (hb : s.mem[item.batch]? = some batch) :
    Separate cfg (s.flushBatch now item rest toSend batch) := by
  have header : ∀ msg, HeaderOf msg batch.pkt → HeaderOf msg (batch.reset now).pkt :=
    fun msg h => ⟨h.hopPos, h.hopIP, h.port, h.protocol⟩
  refine ⟨?_, ?_, ?_, h.absent⟩
  · intro x hx
    rcases List.mem_or_eq_of_mem_set hx with hx | rfl
    · exact h.pending x hx
    · exact nofun
  · intro f hf
    rw [State.frames_flushBatch timer] at hf
    rcases List.mem_append.mp hf with hf | hf
    · exact h.flushed f hf
    · rw [List.mem_singleton.mp hf]
      intro t ht
      have own := List.mem_of_getElem? hb
      obtain ⟨⟨msg, life⟩, batched⟩ := written.batches batch own
      exact .batch (batched t ht) (life.of_header (h.pending batch own t ht))
        (List.mem_map_of_mem (f := fun t : Ticket => t.msg.sub) ht)
  · intro t b target x hx
    have hx' := (Store.getElem?_set hb _ b).symm.trans hx
    split at hx'
    · rename_i eq
      obtain rfl := Option.some.inj hx'
      exact header _ (h.target t b target batch (eq ▸ hb))
    · exact h.target t b target x hx'

theorem Separate.step (h : Separate cfg s) (written : Written cfg s) {e : Event}
    (agrees : Agrees cfg s e) (move : Step cfg s e s') : Separate cfg s' := by
  cases move with
  | receive msg _ idle => exact h.receive agrees
  | @create t times _ absent _ =>
    refine h.alloc (s.create cfg t times) times rfl rfl ?_ ?_
    · intro t' b target
      rcases s.create_handler cfg t times with idle | ⟨b', -, located⟩
      · rw [idle] at target
        cases target
      · rw [located] at target
        obtain ⟨rfl, rfl⟩ := Prod.mk.inj (Option.some.inj target)
        exact ⟨rfl, (create_located (h.absent _ absent) located).2⟩
    · intro t' here
      rcases s.create_handler cfg t times with idle | ⟨b', -, located⟩
      · rw [idle] at here
        cases here
      · rw [located] at here
        cases here
  | @append t b batch _ located hb =>
    apply State.append_elim
    case full => exact ⟨h.pending, h.flushed, nofun, nofun⟩
    case record => exact fun pkt accepted => h.record (by rw [located]; rfl) hb accepted
  | @openBatch t time _ full =>
    refine h.alloc (s.openBatch cfg t time) [time] rfl rfl ?_ nofun
    rintro t' b ⟨⟩
    exact ⟨rfl, le_refl _⟩
  | @appendNew t b batch _ opened hb =>
    apply State.appendNew_elim
    case refused => exact ⟨h.pending, h.flushed, nofun, nofun⟩
    case record => exact fun pkt accepted => h.record (by rw [opened]; rfl) hb accepted
  | push now _ _ _ _ => exact ⟨h.pending, h.flushed, nofun, nofun⟩
  | keep _ _ _ _ => exact ⟨h.pending, h.flushed, nofun, nofun⟩
  | @finish t b item batch _ _ hb =>
    refine ⟨?_, h.flushed, nofun, nofun⟩
    intro x hx
    rcases List.mem_or_eq_of_mem_set hx with hx | rfl
    · exact h.pending x hx
    · exact h.pending batch (List.mem_of_getElem? hb)
  | expire now _ idle =>
    refine ⟨h.pending, ?_, h.target, h.absent⟩
    rw [State.frames_expire idle]
    exact h.flushed
  | flushBatch _ timer _ hb _ => exact h.flushBatch written timer hb
  | flush _ done =>
    refine ⟨h.pending, ?_, h.target, h.absent⟩
    rw [State.frames_flush done]
    exact h.flushed
  | @evict now key v todo _ _ =>
    apply State.evict_elim
    case crash => exact fun _ => ⟨h.pending, h.flushed, h.target, h.absent⟩
    case gone =>
      intro heap _
      refine ⟨h.pending, h.flushed, h.target, fun t here => ?_⟩
      have none := h.absent t here
      simp only [State.bList, Store.lookup_filter_ne] at none ⊢
      split
      · rfl
      · exact none
  | shortBuffer | snapshot | done | visit | readTime | fresh =>
    exact ⟨h.pending, h.flushed, h.target, h.absent⟩

theorem Separate.init : Separate cfg State.init := ⟨nofun, nofun, nofun, nofun⟩

/-- The frame of a record is one built for the path of its message. -/
theorem frameOf_of_run (run : Run (Step cfg) (Agrees cfg) State.init s) {f : SendInfo}
    (hf : f ∈ s.frames) {t : Ticket} (ht : t ∈ f.log) :
    FrameOf cfg t.msg (records f.log) f.p := by
  have both : Separate cfg s ∧ Written cfg s :=
    run.invariant (P := fun s => Separate cfg s ∧ Written cfg s)
      (fun s e s' h agrees move => ⟨h.1.step h.2 agrees move, h.2.step move⟩)
      ⟨Separate.init, Written.init⟩
  exact both.1.flushed f hf t ht

end

/-- Every record leaves under the port, protocol and hops of its own message. -/
def Isolated (s : State) : Prop :=
  ∀ f ∈ s.frames, ∀ t ∈ f.log, ∃ h, parseHeader f.p = .ok h ∧ h.port = t.msg.port ∧
    h.protocol = protocolByte t.msg.protocol ∧ h.hopIP = hopSlots t.msg.hops

theorem isolated {cfg : Config} {s : State} (run : Run (Step cfg) (Agrees cfg) State.init s) :
    Isolated s := by
  intro f hf t ht
  obtain ⟨p, header, -, bytes⟩ := (frameOf_of_run run hf ht).wire
  rw [bytes]
  exact ⟨_, parseHeader_wire p, header.port, header.protocol, header.hopIP⟩

/-- Two requests for one port leave in one frame, and one along another path in its own. -/
theorem isolated_two_requests :
    ∃ s, Run (Step shipped) (Agrees shipped) State.init s ∧
      s.sent.map SendInfo.log = [[⟨0, request 80 7⟩, ⟨2, request 80 9⟩],
        [⟨1, { request 443 8 with routingKey := "10.0.0.1,10.0.0.4" }⟩]] ∧ Isolated s := by
  obtain ⟨s, run, logs⟩ : ∃ s, Run (Moves (State.next shipped)) (Agrees shipped) State.init s ∧
      s.sent.map SendInfo.log = [[⟨0, request 80 7⟩, ⟨2, request 80 9⟩],
        [⟨1, { request 443 8 with routingKey := "10.0.0.1,10.0.0.4" }⟩]] := by
    apply Run.exists_of_checked [.receive (request 80 7), .create [0], .append, .push 0, .unlock,
      .receive { request 443 8 with routingKey := "10.0.0.1,10.0.0.4" }, .create [1], .append,
      .push 1, .unlock, .receive (request 80 9), .append, .unlock, .expire 60000000, .flushBatch,
      .flushBatch, .flush]
    decide +kernel
  have run := run.imp fun _ _ _ _ => step_of_next shipped
  exact ⟨s, run, logs, isolated run⟩

/-- Two requests along one path for different ports of the origin: the second one leaves
in the frame of the first, for port 80. -/
theorem not_isolated_two_ports :
    ∃ s, State.init.execute shipped [.receive (request 80 7), .create [0], .append, .push 0, .unlock,
        .receive (request 443 9), .append, .unlock, .expire 60000000, .flushBatch, .flush] = some s ∧
      Run (Step shipped) (fun _ _ => True) State.init s ∧
      (∃ f ∈ s.sent, ⟨1, request 443 9⟩ ∈ f.log ∧
        (parseHeader f.p).toOption.map Packet.port = some 80) ∧ ¬ Isolated s := by
  have ran : (State.init.execute shipped [.receive (request 80 7), .create [0], .append, .push 0,
      .unlock, .receive (request 443 9), .append, .unlock, .expire 60000000, .flushBatch,
      .flush]).map (fun s => s.sent.map fun f =>
        (f.log, (parseHeader f.p).toOption.map Packet.port)) =
      some [([⟨0, request 80 7⟩, ⟨1, request 443 9⟩], some 80)] := by
    decide +kernel
  obtain ⟨s, run, seen⟩ := Option.map_eq_some_iff.mp ran
  obtain ⟨f, hf, view⟩ : ∃ f ∈ s.sent, (f.log, (parseHeader f.p).toOption.map Packet.port) =
      ([⟨0, request 80 7⟩, ⟨1, request 443 9⟩], some 80) :=
    List.mem_map.mp (seen ▸ List.mem_singleton_self _)
  obtain ⟨log, port⟩ := Prod.mk.inj view
  have carried : ⟨1, request 443 9⟩ ∈ f.log := by
    rw [log]
    exact List.mem_cons_of_mem _ List.mem_cons_self
  refine ⟨s, run, run_of_execute shipped run (fun _ _ _ => trivial), ⟨f, hf, carried, port⟩, ?_⟩
  intro isolated
  obtain ⟨h, parsed, own, -⟩ := isolated f (List.mem_append_left _ hf) _ carried
  rw [parsed] at port
  have shared : h.port = 80 := Option.some.inj port
  rw [own] at shared
  exact absurd shared (by decide)

end SkyAccel.Aggregator
