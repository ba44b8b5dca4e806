import SkyAccel.Lib.Tally
import SkyAccel.Network.Proxies

/-!
# No request and no response twice

Whatever the proxies of a network do, and whatever is lost between them, a record that a
client's request became is submitted to an origin at most as often as it was accepted, each
submitted task is answered at most once, and a response is delivered at most as often as an
origin gave it (`at_most_once`).

For each direction the records that are still on their way are added up: those in the
aggregators of all nodes and those in the frames between them. With what has arrived, they
are never more than what was put in (`Kept`).
-/

namespace SkyAccel.Network

open Aggregator (AggregatorMsg Claimed Config Flows HeaderOf Outgoing SendInfo State records
  sentMsgs)
open Server (Dispatch)
open Net (ipString itoa joinHostPort)
open Tunnel (BackSourceTask Effect Packet SubPacket advanceRawHop backSourceTask encodeAll
  forwardPacket handleQUICPacket headerSize isLastHop protocal received)
open scoped List

/-! ## One frame at one node -/

/-- The record that a task was made of. -/
def record (task : BackSourceTask) : SubPacket := ⟨task.userID, task.reqData⟩

/-- What a node makes of a frame with the header `p` and the records `subs`. -/
inductive Handled (p : Packet) (subs : List SubPacket) : Effect → Prop
  | drop : Handled p subs .drop
  | panic : Handled p subs .panic
  | submit {originIP : UInt32} : p.port ≠ 0 → isLastHop p 2 2 = some true →
      p.hopIP[p.hopPos.toNat + 1]? = some originIP →
      Handled p subs (.submit (protocal p) ((received subs).map
        (backSourceTask p (joinHostPort (ipString originIP) (itoa p.port.toNat)))))
  | deliver : p.port = 0 → isLastHop p 3 1 = some true → Handled p subs (.deliver (received subs))
  | forward {nextIP : UInt32} {q : Packet} :
      (if p.port ≠ 0 then isLastHop p 2 2 else isLastHop p 3 1) = some false →
      p.hopIP[(p.hopPos + 1).toNat]? = some nextIP → q.port = p.port →
      q.payloadLen = p.payloadLen → q.hopIP = p.hopIP →
      (p.hopPos.toNat < 3 → q.hopPos = p.hopPos + 1) →
      Handled p subs (.forward nextIP (q.wire (encodeAll subs)))

section
variable {p : Packet} {subs : List SubPacket}

/-- The position of a frame goes up or stays, and the rest stays. -/
theorem advanceRawHop_same (p : Packet) (body : List UInt8) :
    ∃ q : Packet, q.port = p.port ∧ q.payloadLen = p.payloadLen ∧ q.hopIP = p.hopIP ∧
      (p.hopPos.toNat < 3 → q.hopPos = p.hopPos + 1) ∧
      advanceRawHop (p.wire body) = q.wire body := by
  by_cases low : p.hopPos.toNat < 3
  · exact ⟨{ p with hopPos := p.hopPos + 1 }, rfl, rfl, rfl, fun _ => rfl,
      Tunnel.advanceRawHop_wire p low⟩
  · have last : ¬ p.hopPos.toNat < Tunnel.maxHops - 1 := low
    refine ⟨p, rfl, rfl, rfl, fun below => absurd below low, ?_⟩
    simp [advanceRawHop, Packet.wire, Tunnel.headBytes_eq, last]

theorem handled_forward
    (onward : (if p.port ≠ 0 then isLastHop p 2 2 else isLastHop p 3 1) = some false) :
    Handled p subs (forwardPacket (p.wire (encodeAll subs)) p.header) := by
  unfold forwardPacket
  split
  · exact .panic
  · rename_i nextIP slot
    obtain ⟨q, port, length, slots, pos, same⟩ := advanceRawHop_same p (encodeAll subs)
    rw [same]
    exact .forward onward slot port length slots pos

/-- The records that a node parses are those of the frame, but for an empty one at the end. -/
theorem parse_prefix (length : p.payloadLen.toNat = (encodeAll subs).length) :
    ∃ q, Tunnel.parse (p.wire (encodeAll subs)) (p.wire (encodeAll subs)).length =
      .ok (q, received subs) := by
  obtain ⟨q, parsed⟩ := Tunnel.parse_wire p length.symm
  have short : ∀ s ∈ subs, s.data.length < 65536 := by
    intro s mem
    have := Tunnel.length_le_encodeAll mem
    have := p.payloadLen.toNat_lt
    omega
  rw [Tunnel.subPackets_encode short (le_refl _)] at parsed
  exact ⟨q, parsed⟩

theorem handled (length : p.payloadLen.toNat = (encodeAll subs).length) :
    Handled p subs (handleQUICPacket (p.wire (encodeAll subs))) := by
  obtain ⟨q, parsed⟩ := parse_prefix length
  rw [Tunnel.handleQUICPacket_wire]
  split
  · rename_i port
    unfold Tunnel.handleRequest
    split
    · exact .panic
    · rename_i onward
      exact handled_forward (by rw [if_pos port]; exact onward)
    · rename_i last
      simp only [parsed]
      split
      · exact .drop
      · split
        · exact .panic
        · rename_i originIP slot
          split
          · exact .drop
          · exact .submit port last slot
  · rename_i port
    unfold Tunnel.handleResponse
    split
    · exact .panic
    · rename_i onward
      exact handled_forward (by rw [if_neg port]; exact onward)
    · rename_i last
      simp only [parsed]
      split
      · exact .drop
      · exact .deliver (not_not.mp port) last

/-- The tasks of a frame are made of its records. -/
theorem record_tasks (addr : String) (subs : List SubPacket) :
    ((received subs).map (backSourceTask p addr)).map record <+: subs := by
  simpa [record, backSourceTask, Function.comp_def] using Tunnel.received_isPrefix subs

end

/-! ## What is on its way -/

/-- The ports of messages of a direction. -/
def Direction.Has : Direction → UInt16 → Prop
  | .request, port => port ≠ 0
  | .response, port => port = 0

def Agg.content (agg : Agg) : Multiset SubPacket :=
  (agg.inputChan.map AggregatorMsg.sub : List SubPacket) +
    tally (fun w : State => w.content.map AggregatorMsg.sub) agg.workers

def Flight.part (d : Direction) (f : Flight) : Multiset SubPacket :=
  if f.dir = d then (f.subs : Multiset SubPacket) else 0

/-- The aggregator takes messages of its direction only. -/
structure Agg.Sound (cfg : Config) (d : Direction) (agg : Agg) : Prop where
  channel : ∀ msg ∈ agg.inputChan, d.Has msg.port
  workers : ∀ w ∈ agg.workers, Claimed w ∧ Outgoing cfg (fun msg => d.Has msg.port) w

/-- The frame carries its records, in its direction. -/
def Flight.Whole (f : Flight) : Prop :=
  ∃ p : Packet, f.dir.Has p.port ∧ p.payloadLen.toNat = (encodeAll f.subs).length ∧
    f.pkt = p.wire (encodeAll f.subs)

namespace System

def pending (d : Direction) (s : System) : Multiset SubPacket :=
  tally (fun node : Node => (node.agg d).content) s.nodes + tally (Flight.part d) s.flights

/-- What has come to its end in a direction. -/
def ended (s : System) : Direction → Multiset SubPacket
  | .request => (s.submitted.map record : List SubPacket)
  | .response => (s.delivered : Multiset SubPacket)

/-- What was put in. -/
def entered (s : System) : Direction → Multiset SubPacket
  | .request => (s.requests : Multiset SubPacket)
  | .response => (s.answered.map fun a => ⟨a.1.userID, a.2⟩ : List SubPacket)

/-- Records are not multiplied, in either direction, and tasks are not done twice. -/
structure Kept (cfg : Config) (s : System) : Prop where
  aggs : ∀ node ∈ s.nodes, ∀ d, (node.agg d).Sound cfg d
  flights : ∀ f ∈ s.flights, f.Whole
  balance : ∀ d, s.pending d + s.ended d ≤ s.entered d
  tasks : tally (fun node : Node => (node.tasks : Multiset BackSourceTask)) s.nodes +
    (s.answered.map Prod.fst : List BackSourceTask) ≤ s.submitted

section
variable {cfg : Config} {s s' : System} {n : Nat} {node : Node}

/-! ## Steps of one node -/

theorem pending_setNode (at_ : s.nodes[n]? = some node) (node' : Node) (d : Direction) :
    (s.setNode n node').pending d + (node.agg d).content =
      s.pending d + (node'.agg d).content := by
  have moved := tally_set (f := fun node : Node => (node.agg d).content) at_ node'
  rw [pending, pending, setNode, add_right_comm, moved, add_right_comm]

theorem Kept.aggs_set (h : Kept cfg s) (node' : Node)
    (own : ∀ d, (node'.agg d).Sound cfg d) :
    ∀ x ∈ (s.setNode n node').nodes, ∀ d, (x.agg d).Sound cfg d := by
  intro x mem
  obtain mem | rfl := List.mem_or_eq_of_mem_set mem
  · exact h.aggs x mem
  · exact own

/-- A node crashes. -/
theorem Kept.crash (h : Kept cfg s) (at_ : s.nodes[n]? = some node) :
    Kept cfg (s.crash n node) where
  aggs := h.aggs_set _ (h.aggs node (List.mem_of_getElem? at_))
  flights := h.flights
  balance d := by
    have same := add_right_cancel (pending_setNode at_ { node with crashed := true } d)
    exact same ▸ h.balance d
  tasks := by
    have same := tally_set_same (f := fun node : Node => (node.tasks : Multiset BackSourceTask)) at_
      (x := { node with crashed := true }) rfl
    exact same ▸ h.tasks

theorem setAgg_agg (node : Node) (d d' : Direction) (agg : Agg) :
    (node.setAgg d agg).agg d' = if d' = d then agg else node.agg d' := by
  simp [Node.setAgg, Function.update_apply]

theorem sound_setAgg (h : ∀ d, (node.agg d).Sound cfg d) {d : Direction} {agg : Agg}
    (new : agg.Sound cfg d) : ∀ d', ((node.setAgg d agg).agg d').Sound cfg d' := by
  intro d'
  rw [setAgg_agg]
  split
  · rename_i same
    exact same ▸ new
  · exact h d'

/-- The content of the aggregator of one direction is replaced. -/
theorem pending_setAgg (at_ : s.nodes[n]? = some node) (d : Direction) (agg : Agg)
    (node' : Node) (aggs : node'.agg = (node.setAgg d agg).agg) (d' : Direction) :
    (s.setNode n node').pending d' + (if d' = d then (node.agg d).content else 0) =
      s.pending d' + if d' = d then agg.content else 0 := by
  have moved := pending_setNode at_ node' d'
  rw [aggs, setAgg_agg] at moved
  split
  · rename_i same
    subst same
    simpa using moved
  · rename_i other
    rw [if_neg other] at moved
    simpa using add_right_cancel moved

theorem content_concat (agg : Agg) (msg : AggregatorMsg) :
    Agg.content { agg with inputChan := agg.inputChan ++ [msg] } = agg.content + {msg.sub} := by
  simp only [Agg.content, List.map_append, List.map_cons, List.map_nil, ← Multiset.coe_add,
    Multiset.coe_singleton]
  abel

/-- A message is put on a channel. -/
theorem pending_addToBatch (at_ : s.nodes[n]? = some node) (d d' : Direction)
    (msg : AggregatorMsg) : (s.addToBatch n node d msg).pending d' =
      s.pending d' + if d' = d then {msg.sub} else 0 := by
  have moved := pending_setAgg at_ d
    { node.agg d with inputChan := (node.agg d).inputChan ++ [msg] } _ rfl d'
  rw [content_concat] at moved
  split at moved
  · rename_i same
    rw [if_pos same]
    rw [← add_assoc, add_right_comm] at moved
    exact add_right_cancel moved
  · rename_i other
    rw [if_neg other]
    rw [add_zero] at moved
    exact moved

theorem sound_concat {d : Direction} (h : (node.agg d).Sound cfg d) {msg : AggregatorMsg}
    (own : d.Has msg.port) :
    Agg.Sound cfg d { node.agg d with inputChan := (node.agg d).inputChan ++ [msg] } where
  channel m mem := by
    obtain mem | mem := List.mem_append.mp mem
    · exact h.channel m mem
    · exact List.mem_singleton.mp mem ▸ own
  workers := h.workers

theorem tasks_addToBatch (at_ : s.nodes[n]? = some node) (d : Direction) (msg : AggregatorMsg) :
    tally (fun node : Node => (node.tasks : Multiset BackSourceTask))
      (s.addToBatch n node d msg).nodes =
      tally (fun node : Node => (node.tasks : Multiset BackSourceTask)) s.nodes :=
  tally_set_same at_ rfl

theorem Kept.accept (h : Kept cfg s) (at_ : s.nodes[n]? = some node) {out : Dispatch}
    (ported : Ported out) : Kept cfg (s.accept n node out) := by
  have sound := h.aggs node (List.mem_of_getElem? at_)
  cases out with
  | refused => exact h
  | direct originAddr => exact h
  | panic => exact h.crash at_
  | add msg =>
    constructor
    case aggs => exact h.aggs_set _ (sound_setAgg sound (sound_concat (sound _) ported))
    case flights => exact h.flights
    case balance =>
      intro d
      have balance := h.balance d
      have more : (s.accept n node (.add msg)).pending d =
          s.pending d + if d = .request then {msg.sub} else 0 :=
        pending_addToBatch at_ .request d msg
      rw [more]
      cases d with
      | request =>
        simp only [ended, entered, System.accept, addToBatch, setNode, if_true,
          ← Multiset.coe_add, Multiset.coe_singleton]
        rw [add_right_comm]
        exact add_le_add_left balance _
      | response =>
        rw [if_neg (by decide), add_zero]
        exact balance
    case tasks =>
      have same := tasks_addToBatch at_ .request msg
      exact same ▸ h.tasks

/-! ## Workers -/

theorem whole_of_launch {w : State} {d : Direction}
    (h : Outgoing cfg (fun msg => d.Has msg.port) w) {frames : List SendInfo}
    (sent : ∀ f ∈ frames, f ∈ w.sent) : ∀ f ∈ launch d frames, f.Whole := by
  intro f mem
  obtain ⟨info, listed, made⟩ := List.mem_filterMap.mp mem
  obtain ⟨addr, -, rfl⟩ := Option.map_eq_some_iff.mp made
  obtain ⟨msg, p, own, header, length, bytes⟩ :=
    h.frames info (List.mem_append_left _ (sent info listed))
  exact ⟨p, header.port ▸ own, length, bytes⟩

/-- A frame without a next hop is not let out. -/
theorem tally_launch (d : Direction) (frames : List SendInfo) :
    tally (Flight.part d) (launch d frames) ≤ (sentMsgs frames).map AggregatorMsg.sub := by
  induction frames with
  | nil => exact le_refl _
  | cons f frames ih =>
    have head : (sentMsgs (f :: frames)).map AggregatorMsg.sub =
        (records f.log : Multiset SubPacket) + (sentMsgs frames).map AggregatorMsg.sub := by
      simp only [sentMsgs, List.flatMap_cons, List.map_append, ← Multiset.coe_add,
        Multiset.map_add, Multiset.map_coe, List.map_map, records]
      rfl
    rw [head]
    cases next : f.next with
    | none =>
      have skipped : launch d (f :: frames) = launch d frames := by simp [launch, next]
      rw [skipped]
      exact ih.trans (Multiset.le_add_left _ _)
    | some addr =>
      have sent : launch d (f :: frames) =
          ⟨d, addr, f.p, records f.log⟩ :: launch d frames := by simp [launch, next]
      rw [sent, tally_cons, Flight.part, if_pos rfl]
      exact add_le_add_right ih _

theorem tally_launch_other {d d' : Direction} (other : d' ≠ d) (frames : List SendInfo) :
    tally (Flight.part d') (launch d frames) = 0 := by
  apply tally_eq_zero
  intro f mem
  obtain ⟨info, -, made⟩ := List.mem_filterMap.mp mem
  obtain ⟨addr, -, rfl⟩ := Option.map_eq_some_iff.mp made
  exact if_neg (Ne.symm other)

/-- A worker lets out what it or the channel held. -/
theorem content_turn {agg : Agg} {i : Nat} {w w' : State} {inputChan : List AggregatorMsg}
    (at_ : agg.workers[i]? = some w) (turn : Turn cfg agg w inputChan w') (d : Direction) :
    Agg.content ⟨inputChan, agg.workers.set i w'⟩ +
      tally (Flight.part d) (launch d (w'.sent.drop w.sent.length)) ≤ agg.content := by
  obtain ⟨taken, channel, flows⟩ : ∃ taken : List AggregatorMsg,
      agg.inputChan = taken ++ inputChan ∧ ∃ new, w'.sent = w.sent ++ new ∧
        w'.content + sentMsgs new ≤ w.content + (taken : Multiset AggregatorMsg) := by
    cases turn with
    | receive waiting move => exact ⟨[_], waiting, move.flow⟩
    | work plain move =>
      have flows := move.flow
      rw [Flows, plain] at flows
      exact ⟨[], rfl, flows⟩
  obtain ⟨new, sent, flows⟩ := flows
  have out : w'.sent.drop w.sent.length = new := by rw [sent, List.drop_left]
  have kept := Multiset.map_le_map (f := AggregatorMsg.sub) flows
  rw [Multiset.map_add, Multiset.map_add] at kept
  have let_out := tally_launch d new
  have moved := tally_set (f := fun w : State => w.content.map AggregatorMsg.sub) at_ w'
  rw [out]
  apply le_of_add_le_add_right (a := w.content.map AggregatorMsg.sub)
  simp only [Agg.content, channel, List.map_append, ← Multiset.coe_add]
  calc (inputChan.map AggregatorMsg.sub : Multiset SubPacket) +
        tally (fun w : State => w.content.map AggregatorMsg.sub) (agg.workers.set i w') +
        tally (Flight.part d) (launch d new) + w.content.map AggregatorMsg.sub
      = (inputChan.map AggregatorMsg.sub : Multiset SubPacket) +
        (tally (fun w : State => w.content.map AggregatorMsg.sub) (agg.workers.set i w') +
          w.content.map AggregatorMsg.sub) + tally (Flight.part d) (launch d new) := by abel
    _ = (inputChan.map AggregatorMsg.sub : Multiset SubPacket) +
        tally (fun w : State => w.content.map AggregatorMsg.sub) agg.workers +
        (w'.content.map AggregatorMsg.sub + tally (Flight.part d) (launch d new)) := by
      rw [moved]
      abel
    _ ≤ (inputChan.map AggregatorMsg.sub : Multiset SubPacket) +
        tally (fun w : State => w.content.map AggregatorMsg.sub) agg.workers +
        (w.content.map AggregatorMsg.sub + (taken.map AggregatorMsg.sub : List SubPacket)) := by
      exact add_le_add_right ((add_le_add_right let_out _).trans kept) _
    _ = _ := by abel

theorem Turn.sound (low : headerSize ≤ cfg.bufferSize) (high : cfg.bufferSize ≤ 65559)
    (timeout : 20 < cfg.batchTimeoutMs) {agg : Agg} {d : Direction} (h : agg.Sound cfg d)
    {i : Nat} {w w' : State} {inputChan : List AggregatorMsg} (at_ : agg.workers[i]? = some w)
    (turn : Turn cfg agg w inputChan w') :
    Agg.Sound cfg d ⟨inputChan, agg.workers.set i w'⟩ := by
  obtain ⟨claimed, outgoing⟩ := h.workers w (List.mem_of_getElem? at_)
  have new : Claimed w' ∧ Outgoing cfg (fun msg => d.Has msg.port) w' := by
    cases turn with
    | @receive msg rest _ waiting move =>
      refine ⟨claimed.step move, outgoing.step claimed low high timeout ?_ move⟩
      rintro m ⟨⟩
      exact h.channel msg (waiting ▸ List.mem_cons_self)
    | work plain move =>
      exact ⟨claimed.step move, outgoing.step claimed low high timeout (by simp [plain]) move⟩
  constructor
  case channel =>
    cases turn with
    | receive waiting _ =>
      exact fun msg mem => h.channel msg (waiting ▸ List.mem_cons_of_mem _ mem)
    | work _ _ => exact h.channel
  case workers =>
    intro x mem
    obtain mem | rfl := List.mem_or_eq_of_mem_set mem
    · exact h.workers x mem
    · exact new

theorem Kept.advance (h : Kept cfg s) (low : headerSize ≤ cfg.bufferSize)
    (high : cfg.bufferSize ≤ 65559) (timeout : 20 < cfg.batchTimeoutMs)
    (at_ : s.nodes[n]? = some node) {d : Direction} {i : Nat} {w w' : State}
    {inputChan : List AggregatorMsg} (working : (node.agg d).workers[i]? = some w)
    (turn : Turn cfg (node.agg d) w inputChan w') :
    Kept cfg (s.advance n node d inputChan i w w') := by
  have sound := h.aggs node (List.mem_of_getElem? at_)
  have after := turn.sound low high timeout (sound d) working
  constructor
  case aggs => exact h.aggs_set _ (sound_setAgg sound after)
  case flights =>
    intro f mem
    obtain mem | mem := List.mem_append.mp mem
    · exact h.flights f mem
    · have own := (after.workers w' (List.mem_iff_getElem?.mpr ⟨i, by
        simp [Store.getElem?_set working]⟩)).2
      exact whole_of_launch own (fun f => List.mem_of_mem_drop) f mem
  case balance =>
    intro d'
    have balance := h.balance d'
    have moved := pending_setAgg at_ d ⟨inputChan, (node.agg d).workers.set i w'⟩
      { node.setAgg d ⟨inputChan, (node.agg d).workers.set i w'⟩ with
        crashed := w'.crashed } rfl d'
    have split : (s.advance n node d inputChan i w w').pending d' =
        pending d' (s.setNode n { node.setAgg d ⟨inputChan, (node.agg d).workers.set i w'⟩ with
          crashed := w'.crashed }) +
        tally (Flight.part d') (launch d (w'.sent.drop w.sent.length)) := by
      simp only [pending, System.advance, setNode, tally_append, add_assoc]
    have less : (s.advance n node d inputChan i w w').pending d' ≤ s.pending d' := by
      rw [split]
      by_cases same : d' = d
      · subst same
        simp only [if_true] at moved
        have turned := content_turn working turn d'
        apply le_of_add_le_add_right (a := (node.agg d').content)
        rw [add_right_comm, moved, add_assoc]
        exact add_le_add_right turned _
      · simp only [if_neg same, add_zero] at moved
        rw [moved, tally_launch_other same, add_zero]
    exact (add_le_add_left less _).trans balance
  case tasks =>
    have same := tally_set_same (f := fun node : Node => (node.tasks : Multiset BackSourceTask)) at_
      (x := { node.setAgg d ⟨inputChan, (node.agg d).workers.set i w'⟩ with
        crashed := w'.crashed }) rfl
    exact same ▸ h.tasks

/-! ## Frames that arrive -/

/-- A frame whose stream ends within the header is not received. -/
theorem receive_cut {p : Packet} {body : List UInt8} {len : Nat}
    (length : body.length = p.payloadLen.toNat)
    (cut : len ≤ headerSize ∨ (p.wire body).length ≤ len) :
    Tunnel.receive ((p.wire body).take len) = none ∨
      Tunnel.receive ((p.wire body).take len) = some (p.wire body) := by
  by_cases whole : (p.wire body).length ≤ len
  · right
    rw [List.take_of_length_le whole, Tunnel.receive_wire p length]
  · left
    have short := cut.resolve_right whole
    rw [Tunnel.length_wire] at whole
    rw [Tunnel.receive_take p length, if_pos]
    obtain less | rfl := lt_or_eq_of_le short
    · exact .inl less
    · exact .inr ⟨rfl, by rintro rfl; simp at whole⟩

/-- The frame is off its way. -/
theorem Kept.erase (h : Kept cfg s) {k : Nat} {f : Flight} (flying : s.flights[k]? = some f) :
    Kept cfg { s with flights := s.flights.eraseIdx k } ∧
      ∀ d, pending d { s with flights := s.flights.eraseIdx k } + f.part d = s.pending d := by
  have less : ∀ d, pending d { s with flights := s.flights.eraseIdx k } + f.part d =
      s.pending d := by
    intro d
    have taken := tally_eraseIdx (f := Flight.part d) flying
    rw [pending, pending, add_assoc, taken]
  refine ⟨⟨h.aggs, fun f mem => h.flights f (List.mem_of_mem_eraseIdx mem), fun d => ?_, h.tasks⟩,
    less⟩
  have balance := h.balance d
  rw [← less d] at balance
  exact (add_le_add_left (Multiset.le_add_right _ _) _).trans balance

/-- What a node makes of a frame is not more than what the frame carried. -/
theorem Kept.handle (h : Kept cfg s) (at_ : s.nodes[n]? = some node) {f : Flight} {p : Packet}
    (own : f.dir.Has p.port) (length : p.payloadLen.toNat = (encodeAll f.subs).length)
    (room : ∀ d, s.pending d + f.part d + s.ended d ≤ s.entered d) {out : Effect}
    (handled : Handled p f.subs out) : Kept cfg (s.handle n node f out) := by
  have sound := h.aggs node (List.mem_of_getElem? at_)
  cases handled with
  | drop => exact h
  | panic => exact h.crash at_
  | @submit originIP port last slot =>
    have carried := record_tasks (p := p)
      (joinHostPort (ipString originIP) (itoa p.port.toNat)) f.subs
    generalize (received f.subs).map _ = tasks at carried ⊢
    have dir : f.dir = .request := by
      cases dir : f.dir with
      | request => rfl
      | response =>
        rw [dir] at own
        exact absurd own port
    constructor
    case aggs => exact h.aggs_set _ sound
    case flights => exact h.flights
    case balance =>
      intro d
      have balance := room d
      have same := add_right_cancel
        (pending_setNode at_ { node with tasks := node.tasks ++ tasks } d)
      change pending d (s.setNode n { node with tasks := node.tasks ++ tasks }) + _ ≤ _
      rw [same]
      cases d with
      | request =>
        simp only [Flight.part, dir, if_true] at balance
        simp only [ended, System.handle, List.map_append, ← Multiset.coe_add]
        rw [← add_assoc, add_right_comm]
        refine le_trans ?_ balance
        exact add_le_add_left (add_le_add_right (Multiset.coe_le.mpr carried.sublist.subperm) _) _
      | response => exact (add_le_add_left (Multiset.le_add_right _ _) _).trans balance
    case tasks =>
      have before := h.tasks
      have moved := tally_set (f := fun node : Node => (node.tasks : Multiset BackSourceTask)) at_
        { node with tasks := node.tasks ++ tasks }
      simp only [← Multiset.coe_add] at moved
      rw [← add_assoc, add_right_comm] at moved
      change tally _ (s.nodes.set n _) + _ ≤ (↑(s.submitted ++ tasks) : Multiset BackSourceTask)
      rw [add_right_cancel moved, ← Multiset.coe_add, add_right_comm]
      exact add_le_add_left before _
  | deliver port last =>
    have carried := Tunnel.received_isPrefix f.subs
    have dir : f.dir = .response := by
      cases dir : f.dir with
      | request =>
        rw [dir] at own
        exact absurd port own
      | response => rfl
    refine ⟨h.aggs, h.flights, fun d => ?_, h.tasks⟩
    have balance := room d
    cases d with
    | request => exact (add_le_add_left (Multiset.le_add_right _ _) _).trans balance
    | response =>
      simp only [Flight.part, dir, if_true] at balance
      simp only [ended, System.handle, ← Multiset.coe_add]
      rw [← add_assoc, add_right_comm]
      refine le_trans ?_ balance
      exact add_le_add_left (add_le_add_right (Multiset.coe_le.mpr carried.sublist.subperm) _) _
  | @forward nextIP q _ _ port same _ _ =>
    constructor
    case aggs => exact h.aggs
    case flights =>
      intro x mem
      obtain mem | mem := List.mem_append.mp mem
      · exact h.flights x mem
      · rw [List.mem_singleton.mp mem]
        exact ⟨q, port ▸ own, same ▸ length, rfl⟩
    case balance =>
      intro d
      have balance := room d
      have more : (s.handle n node f (.forward nextIP (q.wire (encodeAll f.subs)))).pending d =
          s.pending d + f.part d := by
        simp only [pending, System.handle, tally_append, tally_cons, tally_nil, add_zero, add_assoc]
        rfl
      rw [more]
      exact balance
    case tasks => exact h.tasks

theorem Kept.arrive (h : Kept cfg s) {k len : Nat} {f : Flight}
    (flying : s.flights[k]? = some f) (at_ : s.nodes[n]? = some node)
    (regular : len ≤ headerSize ∨ f.pkt.length ≤ len) :
    Kept cfg (System.arrive { s with flights := s.flights.eraseIdx k } n node f len) := by
  obtain ⟨kept, less⟩ := h.erase flying
  obtain ⟨p, own, length, bytes⟩ := h.flights f (List.mem_of_getElem? flying)
  have room : ∀ d, pending d { s with flights := s.flights.eraseIdx k } + f.part d + s.ended d ≤
      s.entered d := by
    intro d
    rw [less d]
    exact h.balance d
  unfold System.arrive
  rw [bytes] at regular ⊢
  obtain none | whole := receive_cut length.symm regular
  · rw [none]
    exact kept
  · rw [whole]
    exact kept.handle at_ own length room (handled length)

/-! ## Answers -/

theorem doOriginRequest_add {task : BackSourceTask} {answer : Option (List UInt8)}
    {msg : AggregatorMsg} (h : Server.doOriginRequest task answer = .add msg) :
    msg.port = 0 ∧ msg.userID = task.userID := by
  unfold Server.doOriginRequest at h
  split at h
  · cases h
  · split at h
    · cases h
    · simp only at h
      split at h
      · cases h
      · obtain rfl := Dispatch.add.inj h
        exact ⟨rfl, rfl⟩

theorem Kept.reply (h : Kept cfg s) {k : Nat} (at_ : s.nodes[n]? = some node)
    {task : BackSourceTask} (waiting : node.tasks[k]? = some task)
    (answer : Option (List UInt8)) :
    Kept cfg (System.reply (s.setNode n { node with tasks := node.tasks.eraseIdx k }) n
      { node with tasks := node.tasks.eraseIdx k } task (Server.doOriginRequest task answer)) := by
  have sound := h.aggs node (List.mem_of_getElem? at_)
  have here : (s.setNode n { node with tasks := node.tasks.eraseIdx k }).nodes[n]? =
      some { node with tasks := node.tasks.eraseIdx k } := by
    simp [setNode, Store.getElem?_set at_]
  -- the task is taken off the list before it is answered
  have taken : tally (fun node : Node => (node.tasks : Multiset BackSourceTask))
      (s.nodes.set n { node with tasks := node.tasks.eraseIdx k }) + {task} =
      tally (fun node : Node => (node.tasks : Multiset BackSourceTask)) s.nodes := by
    have moved := tally_set (f := fun node : Node => (node.tasks : Multiset BackSourceTask)) at_
      { node with tasks := node.tasks.eraseIdx k }
    have one : (node.tasks : Multiset BackSourceTask) =
        (node.tasks.eraseIdx k : Multiset BackSourceTask) + {task} := by
      rw [← Multiset.coe_singleton, Multiset.coe_add, Multiset.coe_eq_coe]
      have taken := List.getElem_cons_eraseIdx_perm (Store.lt_of_some waiting)
      rw [(List.getElem?_eq_some_iff.mp waiting).2] at taken
      exact taken.symm.trans (List.perm_append_singleton _ _).symm
    simp only [one] at moved
    rw [← add_assoc, add_right_comm] at moved
    exact add_right_cancel moved
  have before := h.tasks
  rw [← taken] at before
  have kept : Kept cfg (s.setNode n { node with tasks := node.tasks.eraseIdx k }) := by
    refine ⟨h.aggs_set _ sound, h.flights, fun d => ?_, ?_⟩
    · have same := add_right_cancel
        (pending_setNode at_ { node with tasks := node.tasks.eraseIdx k } d)
      exact same ▸ h.balance d
    · exact (add_le_add_left (Multiset.le_add_right _ _) _).trans before
  cases dispatch : Server.doOriginRequest task answer with
  | refused => exact kept
  | direct originAddr => exact kept
  | panic => exact kept.crash here
  | add msg =>
    obtain ⟨port, user⟩ := doOriginRequest_add dispatch
    constructor
    case aggs => exact kept.aggs_set _ (sound_setAgg sound (sound_concat (sound _) port))
    case flights => exact h.flights
    case balance =>
      intro d
      have balance := kept.balance d
      have more := pending_addToBatch here .response d msg
      change pending d (addToBatch _ n _ .response msg) + _ ≤ _
      rw [more]
      cases d with
      | request =>
        rw [if_neg (by decide), add_zero]
        exact balance
      | response =>
        have own : msg.sub = ⟨task.userID, msg.data⟩ := by rw [← user]; rfl
        simp only [ended, entered, System.reply, addToBatch, setNode, if_true, own,
          List.map_append, List.map_cons, List.map_nil, ← Multiset.coe_add,
          Multiset.coe_singleton]
        rw [add_right_comm]
        exact add_le_add_left balance _
    case tasks =>
      have same := tasks_addToBatch here .response msg
      change tally _ (addToBatch _ n _ .response msg).nodes +
        (↑((s.answered ++ [(task, msg.data)]).map Prod.fst) : Multiset BackSourceTask) ≤ _
      rw [same, List.map_append, List.map_cons, List.map_nil, ← Multiset.coe_add,
        Multiset.coe_singleton, ← add_assoc, add_right_comm]
      exact before

theorem Kept.step (h : Kept cfg s) (low : headerSize ≤ cfg.bufferSize)
    (high : cfg.bufferSize ≤ 65559) (timeout : 20 < cfg.batchTimeoutMs) {e : Event}
    (regular : s.Regular e) (move : Step cfg s e s') : Kept cfg s' := by
  cases move with
  | connection _ _ _ at_ => exact h.accept at_ regular
  | datagram _ _ _ at_ => exact h.accept at_ regular
  | turn at_ working turn => exact h.advance low high timeout at_ working turn
  | arrive flying at_ _ => exact h.arrive flying at_ (regular _ flying)
  | lose flying => exact (h.erase flying).1
  | reply at_ waiting => exact h.reply at_ waiting _

theorem Kept.init (addrs : List UInt32) (workers : Nat) : Kept cfg (init addrs workers) := by
  have empty : ∀ node ∈ (System.init addrs workers).nodes, node.tasks = [] ∧ ∀ d, node.agg d =
      ⟨[], List.replicate workers State.init⟩ := by
    intro node mem
    obtain ⟨addr, -, rfl⟩ := List.mem_map.mp mem
    exact ⟨rfl, fun _ => rfl⟩
  constructor
  case aggs =>
    intro node mem d
    rw [(empty node mem).2]
    refine ⟨nofun, fun w mem => ?_⟩
    rw [List.eq_of_mem_replicate mem]
    exact ⟨Claimed.init, Outgoing.init⟩
  case flights => exact nofun
  case balance =>
    intro d
    have none : tally (fun node : Node => (node.agg d).content) (System.init addrs workers).nodes =
        0 := by
      apply tally_eq_zero
      intro node mem
      rw [(empty node mem).2]
      have quiet : tally (fun w : State => w.content.map AggregatorMsg.sub)
          (List.replicate workers State.init) = 0 := by
        apply tally_eq_zero
        intro w mem
        rw [List.eq_of_mem_replicate mem]
        rfl
      simp [Agg.content, quiet]
    rw [pending, none]
    cases d <;> exact le_refl _
  case tasks =>
    have none : tally (fun node : Node => (node.tasks : Multiset BackSourceTask))
        (System.init addrs workers).nodes = 0 := by
      apply tally_eq_zero
      intro node mem
      simp [(empty node mem).1]
    rw [none]
    exact le_refl _

end

end System

end SkyAccel.Network
