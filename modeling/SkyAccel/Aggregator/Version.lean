import SkyAccel.Aggregator.Worker
import SkyAccel.Lib.Store

/-!
# The two versions of the aggregator

`aggregator_v2.go` is `aggregator.go` with shards in the place of workers. Their
`handleMsg` differ in which messages they send at once and with which buffers, and the
frames of the second version are copied into pooled buffers of a fixed size and handed on
without a detour. `Version` has these differences as its fields; the other sections are
those of `Worker`.

Eviction in the second version is left out.
-/

namespace SkyAccel.Aggregator

open Tunnel

/-- `pool` is the size of the buffers that frames are copied to, if there are such. A
version that is `direct` hands a frame on as soon as `checkTimeout` has it. -/
structure Version where
  emerges : AggregatorMsg → Bool
  buffSize : AggregatorMsg → Nat
  pool : Option Nat
  direct : Bool

namespace Version

/-- `aggregator.go`. -/
def v1 (cfg : Config) : Version where
  emerges := Aggregator.emerges cfg
  buffSize := Aggregator.buffSize cfg
  pool := none
  direct := false

/-- `aggregator_v2.go`. -/
def v2 (cfg : Config) : Version where
  emerges msg := msg.emerge || 1024 ≤ msg.data.length
  buffSize msg :=
    if 1024 ≤ msg.data.length then headerSize + 4 + 2 + msg.data.length else cfg.bufferSize
  pool := some (64 * 1024)
  direct := true

variable (v : Version) (cfg : Config) (s : State)

/-- A pooled buffer has room for the packet. -/
def Pooled (pkt : Packet) : Prop := ∀ n ∈ v.pool, pkt.totalBytes ≤ n

instance (pkt : Packet) : Decidable (v.Pooled pkt) :=
  inferInstanceAs (Decidable (∀ n ∈ v.pool, pkt.totalBytes ≤ n))

/-- A buffer has room for the record of the message. -/
def fits (msg : AggregatorMsg) : Bool := headerSize + (6 + msg.data.length) ≤ v.buffSize msg

def newBatch (msg : AggregatorMsg) (createTime : Int) : Batch where
  routingKey := msg.routingKey
  nextHop := msg.nextHop
  pkt := preparePacket msg (v.buffSize msg)
  heapItem := none
  createTime := createTime
  log := []

/-! ## The sections that differ -/

def receive (msg : AggregatorMsg) : State :=
  if v.emerges msg then
    match (preparePacket msg (v.buffSize msg)).appendUserPacket msg.userID msg.data with
    | none => { s with seq := s.seq + 1 }
    | some pkt =>
      if v.Pooled pkt then
        { s with
          seq := s.seq + 1
          sent := s.sent ++ [⟨pkt.serializeHead.frame, msg.routingKey, msg.nextHop, [⟨s.seq, msg⟩]⟩]
          accepted := s.accepted ++ [⟨s.seq, msg⟩] }
      else { s with crashed := true }
  else
    match s.find msg with
    | none => { s with seq := s.seq + 1, handler := .absent ⟨s.seq, msg⟩ }
    | some b => { s with seq := s.seq + 1, handler := .located ⟨s.seq, msg⟩ b }

end Version

/-- The section that puts new batches for the key of a message into the map, if the key is
not there, and picks one. -/
def State.createWith (s : State) (t : Ticket) (news : List Batch) : State :=
  let batches := s.putNew t.msg.routingKey news.length
  let bList := (batches.lookup t.msg.routingKey).getD []
  { s with
    mem := s.mem ++ news
    batches := batches
    handler := match pick bList (t.msg.userID % UInt32.ofNat bList.length).toNat with
      | none => .idle
      | some b => .located t b }

/-- The section that puts one more batch, locked, at the end of the list of a key. -/
def State.openWith (s : State) (t : Ticket) (new : Batch) : State :=
  { s with
    mem := s.mem ++ [new]
    batches := (t.msg.routingKey, s.bList t.msg.routingKey ++ [s.mem.length]) ::
      s.batches.filter fun kv => kv.1 ≠ t.msg.routingKey
    handler := .opened t s.mem.length }

namespace Version
variable (v : Version) (cfg : Config) (s : State)

def create (t : Ticket) (times : List Int) : State :=
  s.createWith t (times.map (v.newBatch t.msg))

def openBatch (t : Ticket) (createTime : Int) : State :=
  s.openWith t (v.newBatch t.msg createTime)

/-- The section of `checkTimeout` for one item. It panics on a buffer shorter than the
header, and on a pooled buffer shorter than the packet. -/
def flushBatch (now : Int) (item : HeapItem) (rest : List HeapItem) (toSend : List SendInfo)
    (batch : Batch) : State :=
  if headerSize ≤ batch.pkt.buf.length ∧ v.Pooled batch.pkt then
    if v.direct then
      { s with
        mem := s.mem.set item.batch (batch.reset now)
        timer := .flushing now rest toSend
        sent := s.sent ++ [batch.sendInfo] }
    else s.flushBatch now item rest toSend batch
  else { s with crashed := true }

end Version

/-- The sections that are the same in both versions. -/
def Event.shared : Event → Bool
  | .append | .appendNew | .push _ | .unlock | .expire _ | .flush => true
  | _ => false

namespace Version
variable (v : Version) (cfg : Config)

/-- One step of one of the goroutines, without eviction. -/
inductive Step (s : State) : Event → State → Prop
  | receive (msg : AggregatorMsg) : s.crashed = false → s.handler = .idle →
      Step s (.receive msg) (v.receive s msg)
  | create {t : Ticket} (times : List Int) : s.crashed = false → s.handler = .absent t →
      times.length = batchNum cfg t.msg → Step s (.create times) (v.create s t times)
  | openBatch {t : Ticket} (time : Int) : s.crashed = false → s.handler = .full t →
      Step s (.openBatch time) (v.openBatch s t time)
  | flushBatch {now : Int} {item : HeapItem} {rest : List HeapItem} {toSend : List SendInfo}
      {batch : Batch} : s.crashed = false → s.timer = .flushing now (item :: rest) toSend →
      s.handler.locked ≠ some item.batch → s.mem[item.batch]? = some batch →
      Step s .flushBatch (v.flushBatch s now item rest toSend batch)
  | shared {e : Event} {s' : State} : e.shared = true → Aggregator.Step cfg s e s' → Step s e s'

/-- The step for an event, if it is possible. -/
def next (s : State) (e : Event) : Option State :=
  if s.crashed then none
  else
    match e with
    | .receive msg => if s.handler = .idle then some (v.receive s msg) else none
    | .create times =>
      match s.handler with
      | .absent t => if times.length = batchNum cfg t.msg then some (v.create s t times) else none
      | _ => none
    | .openBatch time =>
      match s.handler with
      | .full t => some (v.openBatch s t time)
      | _ => none
    | .flushBatch =>
      match s.timer with
      | .flushing now (item :: rest) toSend =>
        if s.handler.locked = some item.batch then none
        else s.mem[item.batch]?.map (v.flushBatch s now item rest toSend)
      | _ => none
    | e => if e.shared then s.next cfg e else none

end Version

/-! ## The sections by what they lead to -/

/-- What receiving a message can lead to: it is refused, its frame is sent at once, or it
waits for a batch. -/
inductive Received (s : State) (msg : AggregatorMsg) : State → Prop
  | refused : Received s msg { s with seq := s.seq + 1 }
  | urgent (p : List UInt8) : Received s msg { s with
      seq := s.seq + 1
      sent := s.sent ++ [⟨p, msg.routingKey, msg.nextHop, [⟨s.seq, msg⟩]⟩]
      accepted := s.accepted ++ [⟨s.seq, msg⟩] }
  | absent : s.find msg = none →
      Received s msg { s with seq := s.seq + 1, handler := .absent ⟨s.seq, msg⟩ }
  | located {b : Nat} : s.find msg = some b →
      Received s msg { s with seq := s.seq + 1, handler := .located ⟨s.seq, msg⟩ b }

section
variable {v : Version} {cfg : Config} {s s' : State} {P : State → Prop}

theorem State.receive_received (cfg : Config) (s : State) (msg : AggregatorMsg) :
    Received s msg (s.receive cfg msg) :=
  State.receive_elim .refused (fun p _ _ => .urgent p) (fun _ none => .absent none)
    (fun _ _ found => .located found)

theorem Version.receive_elim {msg : AggregatorMsg}
    (refused : v.emerges msg = true → v.fits msg = false → P { s with seq := s.seq + 1 })
    (urgent : ∀ pkt, v.emerges msg = true → v.Pooled pkt →
      (preparePacket msg (v.buffSize msg)).appendUserPacket msg.userID msg.data = some pkt →
      P { s with
        seq := s.seq + 1
        sent := s.sent ++ [⟨pkt.serializeHead.frame, msg.routingKey, msg.nextHop, [⟨s.seq, msg⟩]⟩]
        accepted := s.accepted ++ [⟨s.seq, msg⟩] })
    (crash : ∀ pkt, ¬ v.Pooled pkt →
      (preparePacket msg (v.buffSize msg)).appendUserPacket msg.userID msg.data = some pkt →
      P { s with crashed := true })
    (absent : v.emerges msg = false → s.find msg = none →
      P { s with seq := s.seq + 1, handler := .absent ⟨s.seq, msg⟩ })
    (located : ∀ b, v.emerges msg = false → s.find msg = some b →
      P { s with seq := s.seq + 1, handler := .located ⟨s.seq, msg⟩ b }) :
    P (v.receive s msg) := by
  unfold Version.receive
  split
  · rename_i now
    split
    · rename_i full
      refine refused now (decide_eq_false ?_)
      rw [appendUserPacket_eq_none, preparePacket_eq] at full
      exact Nat.not_le.mpr full
    · rename_i pkt built
      split
      · rename_i pooled
        exact urgent pkt now pooled built
      · rename_i small
        exact crash pkt small built
  · rename_i later
    have later : v.emerges msg = false := Bool.eq_false_of_not_eq_true later
    split
    · rename_i none
      exact absent later none
    · rename_i b found
      exact located b later found

theorem mem_putNew {key : String} {n : Nat} {kv : String × List Nat} (h : kv ∈ s.putNew key n) :
    kv ∈ s.batches ∨ kv = (key, List.range' s.mem.length n) := by
  unfold State.putNew at h
  split at h
  · exact .inl h
  · exact (List.mem_cons.mp h).symm

theorem State.createWith_handler (s : State) (t : Ticket) (news : List Batch) :
    (s.createWith t news).handler = .idle ∨
      ∃ b ∈ ((s.putNew t.msg.routingKey news.length).lookup t.msg.routingKey).getD [],
        (s.createWith t news).handler = .located t b := by
  simp only [createWith]
  split
  · exact .inl rfl
  · rename_i b picked
    exact .inr ⟨b, pick_mem picked, rfl⟩

theorem batchNum_pos (msg : AggregatorMsg) : 0 < batchNum cfg msg := by
  unfold batchNum
  split
  · split
    · exact Nat.zero_lt_one
    · omega
  · exact Nat.zero_lt_one

theorem pick_isSome {bList : List Nat} (some : bList ≠ []) (userID : UInt32) :
    ∃ b, pick bList (userID % UInt32.ofNat bList.length).toNat = .some b := by
  have long := List.length_pos_of_ne_nil some
  unfold pick
  split
  · exact ⟨_, List.getElem?_eq_getElem long⟩
  · refine ⟨_, List.getElem?_eq_getElem ?_⟩
    rw [UInt32.toNat_mod, UInt32.toNat_ofNat']
    have small : userID.toNat < 2 ^ 32 := userID.toNat_lt
    by_cases zero : bList.length % 2 ^ 32 = 0
    · rw [zero, Nat.mod_zero]
      omega
    · exact (Nat.mod_lt _ (Nat.pos_of_ne_zero zero)).trans_le (Nat.mod_le _ _)

/-- `handleMsg` finds a batch once it has made some. -/
theorem createWith_located (keyed : ∀ kv ∈ s.batches, kv.2 ≠ []) (t : Ticket)
    {news : List Batch} (some : news ≠ []) : ∃ b, (s.createWith t news).handler = .located t b := by
  have listed : ((s.putNew t.msg.routingKey news.length).lookup t.msg.routingKey).getD [] ≠ [] := by
    unfold State.putNew
    cases found : s.batches.lookup t.msg.routingKey with
    | some list =>
      simp only [found, Option.getD_some]
      exact keyed _ (Store.mem_of_lookup found)
    | none => simpa using some
  obtain ⟨b, picked⟩ := pick_isSome listed t.msg.userID
  refine ⟨b, ?_⟩
  simp only [State.createWith, picked]

theorem Version.step_of_next {e : Event} (h : v.next cfg s e = some s') : v.Step cfg s e s' := by
  unfold Version.next at h
  split at h
  · cases h
  · rename_i up
    have up : s.crashed = false := Bool.eq_false_of_not_eq_true up
    split at h
    · rename_i msg
      split at h
      · rename_i idle
        obtain rfl := Option.some.inj h
        exact .receive msg up idle
      · cases h
    · rename_i times
      split at h
      · rename_i absent
        split at h
        · rename_i length
          obtain rfl := Option.some.inj h
          exact .create times up absent length
        · cases h
      · cases h
    · rename_i time
      split at h
      · rename_i full
        obtain rfl := Option.some.inj h
        exact .openBatch time up full
      · cases h
    · split at h
      · rename_i timer
        split at h
        · cases h
        · rename_i free
          obtain ⟨batch, hb, rfl⟩ := Option.map_eq_some_iff.mp h
          exact .flushBatch up timer free hb
      · cases h
    · split at h
      · rename_i shared
        exact .shared shared (Aggregator.step_of_next cfg h)
      · cases h

/-! ## The first version -/

theorem pooled_v1 (cfg : Config) (pkt : Packet) : (Version.v1 cfg).Pooled pkt :=
  fun _ none => nomatch none

theorem receive_v1 (msg : AggregatorMsg) : (Version.v1 cfg).receive s msg = s.receive cfg msg := by
  unfold Version.receive State.receive emergeFrame
  cases now : emerges cfg msg with
  | false => simp only [Version.v1, now]; rfl
  | true =>
    cases built : (preparePacket msg (buffSize cfg msg)).appendUserPacket msg.userID msg.data with
    | none => simp only [Version.v1, now, built, if_true]; rfl
    | some pkt =>
      have pooled := pooled_v1 cfg pkt
      simp only [Version.v1] at pooled
      simp only [Version.v1, now, built, if_true, pooled]
      rfl

theorem flushBatch_v1 (now : Int) (item : HeapItem) (rest : List HeapItem) (toSend : List SendInfo) :
    (Version.v1 cfg).flushBatch s now item rest toSend = fun batch =>
      if headerSize ≤ batch.pkt.buf.length then s.flushBatch now item rest toSend batch
      else { s with crashed := true } := by
  funext batch
  simp only [Version.flushBatch, pooled_v1, and_true]
  rfl

theorem create_eq (t : Ticket) (times : List Int) :
    s.create cfg t times = s.createWith t (times.map (newBatch cfg t.msg)) := by
  unfold State.createWith
  rewrite [List.length_map]
  rfl

theorem openBatch_eq (t : Ticket) (time : Int) :
    s.openBatch cfg t time = s.openWith t (newBatch cfg t.msg time) := rfl

/-- Without eviction, a worker takes the steps of the first version. -/
theorem next_v1 {e : Event} (plain : e.evicts = false) :
    (Version.v1 cfg).next cfg s e = s.next cfg e := by
  unfold Version.next
  cases up : s.crashed with
  | true => simp only [State.next, up, if_true]
  | false =>
    cases e with
    | receive msg => simp only [State.next, up, receive_v1]
    | create times =>
      simp only [State.next, up, Version.create, create_eq]
      rfl
    | openBatch time =>
      simp only [State.next, up, Version.openBatch, openBatch_eq]
      rfl
    | flushBatch =>
      cases timer : s.timer with
      | idle => simp only [State.next, up, timer]
      | flushing now expired toSend =>
        cases expired with
        | nil => simp only [State.next, up, timer]
        | cons item rest =>
          simp only [State.next, up, timer]
          rewrite [flushBatch_v1, timer]
          rfl
    | append | appendNew | push | unlock | expire | flush => rfl
    | snapshot | visit | readTime | evict => cases plain

end

end SkyAccel.Aggregator
