import SkyAccel.Aggregator.Message
import SkyAccel.Lib.Heap
import SkyAccel.Lib.Run

/-!
# A worker of the aggregator

`worker` of `aggregator/aggregator.go`: one goroutine runs `handleMsg`, one
`checkTimeout` and one `evictStaleBatches`. A step of the model is one section that is
protected by the lock of the worker or of a batch, and `Handler`, `Timer` and `Evictor`
say between which sections each goroutine stands. Pointers are positions in `mem`.
Times are nanoseconds, and every reading of the clock may be any number.

The fields `log`, `seq` and `accepted` are history: no section reads them.
-/

namespace SkyAccel.Aggregator

open Tunnel

/-! ## The heap of deadlines -/

/-- A `HeapItem` without its `index`, which the heap keeps by `id`. -/
structure HeapItem where
  id : Nat
  batch : Nat
  deadline : Int
  deriving DecidableEq

structure MinHeap where
  items : List HeapItem
  index : Nat → Int

/-- `h[i].index = i`. -/
def MinHeap.setIndex (h : MinHeap) (i : Nat) : MinHeap :=
  match h.items[i]? with
  | some item => { h with index := Function.update h.index item.id i }
  | none => h

def minHeap : Heap.Interface MinHeap HeapItem where
  len h := h.items.length
  less h := Heap.lessAt HeapItem.deadline h.items
  swap h i j := (MinHeap.setIndex { h with items := Heap.swapAt h.items i j } i).setIndex j
  push h item := ⟨h.items ++ [item], Function.update h.index item.id h.items.length⟩
  pop h := h.items.getLast?.map fun item =>
    (item, ⟨h.items.dropLast, Function.update h.index item.id (-1)⟩)

/-- The loop of `checkTimeout` that pops what is due. Every round takes one item, so
the length of the heap is enough fuel. -/
def popExpired (now : Int) : Nat → MinHeap → MinHeap × List HeapItem
  | 0, h => (h, [])
  | fuel + 1, h =>
    match h.items[0]? with
    | none => (h, [])
    | some b =>
      if now < b.deadline then (h, [])
      else
        match Heap.pop minHeap h with
        | none => (h, [])
        | some (popItem, h') => ((popExpired now fuel h').1, popItem :: (popExpired now fuel h').2)

/-- `MinHeap` is a slice ordered by deadline that also keeps the positions. -/
theorem minHeap_refines : Heap.Refines minHeap (Heap.slice HeapItem.deadline) MinHeap.items := by
  have keeps : ∀ (h : MinHeap) i, (h.setIndex i).items = h.items := by
    intro h i
    unfold MinHeap.setIndex
    split <;> rfl
  refine ⟨fun _ => rfl, fun _ _ _ => rfl, fun h i j => ?_, fun _ _ => rfl, fun h => ?_⟩
  · simp only [minHeap, keeps]
    rfl
  · simp only [minHeap, Heap.slice, Option.map_map]
    rfl

theorem push_items (h : MinHeap) (item : HeapItem) :
    (Heap.push minHeap h item).items.Perm (item :: h.items) := by
  rw [minHeap_refines.heap_push]
  exact Heap.push_perm _ _ _

theorem pop_items {h h' : MinHeap} {item : HeapItem} (popped : Heap.pop minHeap h = some (item, h')) :
    h.items.Perm (item :: h'.items) := by
  have view := minHeap_refines.heap_pop h
  rw [popped] at view
  exact Heap.pop_perm view.symm

theorem remove_items {h h' : MinHeap} {item : HeapItem} {i : Int}
    (removed : Heap.remove minHeap h i = some (item, h')) : h.items.Perm (item :: h'.items) := by
  have view := minHeap_refines.heap_remove h i
  rw [removed] at view
  exact Heap.remove_perm view.symm

theorem popExpired_perm (now : Int) (fuel : Nat) (h : MinHeap) :
    h.items.Perm ((popExpired now fuel h).1.items ++ (popExpired now fuel h).2) := by
  induction fuel generalizing h with
  | zero => simp [popExpired]
  | succ fuel ih =>
    rw [popExpired]
    split
    · simp
    · split
      · simp
      · split
        · simp
        · rename_i item h' popped
          exact (pop_items popped).trans (((ih h').cons item).trans List.perm_middle.symm)

/-- When everything is due, everything is popped. -/
theorem popExpired_all {now : Int} {fuel : Nat} {h : MinHeap} (hf : h.items.length ≤ fuel)
    (due : ∀ item ∈ h.items, item.deadline ≤ now) : (popExpired now fuel h).1.items = [] := by
  induction fuel generalizing h with
  | zero => exact List.eq_nil_of_length_eq_zero (Nat.le_zero.mp hf)
  | succ fuel ih =>
    rw [popExpired]
    split
    · rename_i none
      exact List.eq_nil_of_length_eq_zero (Nat.le_zero.mp (List.getElem?_eq_none_iff.mp none))
    · rename_i b first
      rw [if_neg (not_lt.mpr (due b (List.mem_of_getElem? first)))]
      split
      · rename_i none
        have view := minHeap_refines.heap_pop h
        rw [none] at view
        exact Heap.pop_eq_none view.symm
      · rename_i item h' popped
        have perm := pop_items popped
        refine ih ?_ fun x hx => due x (perm.mem_iff.mpr (List.mem_cons_of_mem _ hx))
        have := perm.length_eq
        rw [List.length_cons] at this
        omega

/-! ## The state -/

/-- A message with the number under which the worker received it. -/
structure Ticket where
  seq : Nat
  msg : AggregatorMsg
  deriving DecidableEq

structure Batch where
  routingKey : String
  nextHop : Option UInt32
  pkt : Packet
  heapItem : Option HeapItem
  createTime : Int
  log : List Ticket

structure SendInfo where
  p : List UInt8
  routingKey : String
  next : Option UInt32
  log : List Ticket

/-- A record is appended. -/
def Batch.record (batch : Batch) (pkt : Packet) (t : Ticket) : Batch :=
  { batch with pkt := pkt, log := batch.log ++ [t] }

/-- What `checkTimeout` copies out of a batch. -/
def Batch.sendInfo (batch : Batch) : SendInfo :=
  ⟨batch.pkt.serializeHead.frame, batch.routingKey, batch.nextHop, batch.log⟩

/-- What `checkTimeout` leaves of a batch. -/
def Batch.reset (batch : Batch) (now : Int) : Batch :=
  { batch with
    pkt := { batch.pkt.serializeHead with wp := headerSize }
    createTime := now
    heapItem := none
    log := [] }

/-- Where `handleMsg` stands: no message; no batch found for it; a batch `b` found;
`b` does not take it; a new batch is in the map and locked; `b` is locked and the record
appended; its item is in the heap. -/
inductive Handler
  | idle
  | absent (t : Ticket)
  | located (t : Ticket) (b : Nat)
  | full (t : Ticket)
  | opened (t : Ticket) (b : Nat)
  | appended (t : Ticket) (b : Nat)
  | pushed (t : Ticket) (b : Nat) (item : HeapItem)
  deriving DecidableEq

inductive Timer
  | idle
  | flushing (now : Int) (expired : List HeapItem) (toSend : List SendInfo)

/-- Where `evictStaleBatches` stands: `todo` are the keys of the snapshot not yet
visited, `left` the batches of `key` whose time is not yet read. -/
inductive Evictor
  | idle
  | scanning (now : Int) (todo : List (String × List Nat))
  | checking (now : Int) (key : String) (v left : List Nat) (bDel : Bool)
      (todo : List (String × List Nat))

structure State where
  mem : List Batch
  batches : List (String × List Nat)
  heap : MinHeap
  items : Nat
  handler : Handler
  timer : Timer
  evictor : Evictor
  sent : List SendInfo
  seq : Nat
  accepted : List Ticket
  crashed : Bool

def State.init : State where
  mem := []
  batches := []
  heap := ⟨[], fun _ => 0⟩
  items := 0
  handler := .idle
  timer := .idle
  evictor := .idle
  sent := []
  seq := 0
  accepted := []
  crashed := false

/-- The batch whose lock `handleMsg` holds between two sections. -/
def Handler.locked : Handler → Option Nat
  | .opened _ b => some b
  | .appended _ b => some b
  | .pushed _ b _ => some b
  | _ => none

def Timer.expired : Timer → List HeapItem
  | .idle => []
  | .flushing _ expired _ => expired

def Timer.toSend : Timer → List SendInfo
  | .idle => []
  | .flushing _ _ toSend => toSend

/-! ## The sections -/

def milliseconds (n : Int) : Int := n * 1000000

def batchMaxAge : Int := 60 * 1000 * 1000000

/-- `w.batches[key]`, which is empty for a key that is not there. -/
def State.bList (s : State) (key : String) : List Nat := (s.batches.lookup key).getD []

/-- The batch of a list for a message; the only one needs no index. -/
def pick (bList : List Nat) (idx : Nat) : Option Nat :=
  if bList.length ≤ 1 then bList[0]? else bList[idx]?

theorem pick_mem {bList : List Nat} {idx b : Nat} (h : pick bList idx = some b) : b ∈ bList := by
  unfold pick at h
  split at h <;> exact List.mem_of_getElem? h

def State.find (s : State) (msg : AggregatorMsg) : Option Nat :=
  pick (s.bList msg.routingKey) (msg.userID.toNat % (s.bList msg.routingKey).length)

variable (cfg : Config)

def newBatch (msg : AggregatorMsg) (createTime : Int) : Batch where
  routingKey := msg.routingKey
  nextHop := msg.nextHop
  pkt := preparePacket msg (buffSize cfg msg)
  heapItem := none
  createTime := createTime
  log := []

def batchNum (msg : AggregatorMsg) : Nat :=
  match cfg.batchNumMap msg.port with
  | some num => if num ≤ 0 then 1 else num.toNat
  | none => 1

namespace State
variable (s : State)

/-- The first part of `handleMsg`, up to the end of the section that looks for a batch. -/
def receive (msg : AggregatorMsg) : State :=
  if emerges cfg msg then
    match emergeFrame cfg msg with
    | none => { s with seq := s.seq + 1 }
    | some p => { s with
        seq := s.seq + 1
        sent := s.sent ++ [⟨p, msg.routingKey, msg.nextHop, [⟨s.seq, msg⟩]⟩]
        accepted := s.accepted ++ [⟨s.seq, msg⟩] }
  else
    match s.find msg with
    | none => { s with seq := s.seq + 1, handler := .absent ⟨s.seq, msg⟩ }
    | some b => { s with seq := s.seq + 1, handler := .located ⟨s.seq, msg⟩ b }

/-- The map with `n` new batches for a key, unless the key is there. -/
def putNew (key : String) (n : Nat) : List (String × List Nat) :=
  match s.batches.lookup key with
  | some _ => s.batches
  | none => (key, List.range' s.mem.length n) :: s.batches

/-- The batches of `handleMsg` for a key that has none, made at `times`, and the
section that puts them into the map. -/
def create (t : Ticket) (times : List Int) : State :=
  let batches := s.putNew t.msg.routingKey times.length
  let bList := (batches.lookup t.msg.routingKey).getD []
  { s with
    mem := s.mem ++ times.map (newBatch cfg t.msg)
    batches := batches
    handler := match pick bList (t.msg.userID % UInt32.ofNat bList.length).toNat with
      | none => .idle
      | some b => .located t b }

/-- The section that holds the lock of the batch found. -/
def append (t : Ticket) (b : Nat) (batch : Batch) : State :=
  if batch.heapItem = none ∧ headerSize < batch.pkt.wp then { s with handler := .full t }
  else
    match batch.pkt.appendUserPacket t.msg.userID t.msg.data with
    | none => { s with handler := .full t }
    | some pkt => { s with
        mem := s.mem.set b (batch.record pkt t)
        handler := .appended t b
        accepted := s.accepted ++ [t] }

/-- A new batch, locked, is put at the end of the list of its key. -/
def openBatch (t : Ticket) (createTime : Int) : State :=
  { s with
    mem := s.mem ++ [newBatch cfg t.msg createTime]
    batches := (t.msg.routingKey, s.bList t.msg.routingKey ++ [s.mem.length]) ::
      s.batches.filter fun kv => kv.1 ≠ t.msg.routingKey
    handler := .opened t s.mem.length }

/-- The append to the new batch; the answer is ignored. -/
def appendNew (t : Ticket) (b : Nat) (batch : Batch) : State :=
  match batch.pkt.appendUserPacket t.msg.userID t.msg.data with
  | none => { s with handler := .appended t b }
  | some pkt => { s with
      mem := s.mem.set b (batch.record pkt t)
      handler := .appended t b
      accepted := s.accepted ++ [t] }

def push (t : Ticket) (b : Nat) (now : Int) : State :=
  let item : HeapItem := ⟨s.items, b, now + milliseconds cfg.batchTimeoutMs⟩
  { s with
    heap := Heap.push minHeap s.heap item
    items := s.items + 1
    handler := .pushed t b item }

/-- The batch gets the item that was pushed, and its lock is given up. -/
def finish (b : Nat) (batch : Batch) (item : HeapItem) : State :=
  { s with mem := s.mem.set b { batch with heapItem := some item }, handler := .idle }

/-- The first section of `checkTimeout`. -/
def expire (now : Int) : State :=
  let r := popExpired now s.heap.items.length s.heap
  { s with heap := r.1, timer := .flushing now r.2 [] }

/-- The section of `checkTimeout` for one item. -/
def flushBatch (now : Int) (item : HeapItem) (rest : List HeapItem) (toSend : List SendInfo)
    (batch : Batch) : State :=
  { s with
    mem := s.mem.set item.batch (batch.reset now)
    timer := .flushing now rest (toSend ++ [batch.sendInfo]) }

/-- The end of `checkTimeout`. -/
def flush (toSend : List SendInfo) : State := { s with sent := s.sent ++ toSend, timer := .idle }

/-- Take the items of batches out of the heap. `none` is an index out of range. -/
def removeItems (mem : List Batch) : MinHeap → List Nat → Option MinHeap
  | h, [] => some h
  | h, b :: v =>
    match mem[b]?.bind Batch.heapItem with
    | none => removeItems mem h v
    | some item =>
      match Heap.remove minHeap h (h.index item.id) with
      | none => none
      | some (_, h') => removeItems mem h' v

/-- The section of `evictStaleBatches` that deletes a key. -/
def evict (now : Int) (key : String) (v : List Nat) (todo : List (String × List Nat)) : State :=
  match removeItems s.mem s.heap v with
  | none => { s with crashed := true }
  | some heap => { s with
      heap := heap
      batches := s.batches.filter fun kv => kv.1 ≠ key
      evictor := .scanning now todo }

/-! ### The sections by what they lead to -/

section
variable {cfg : Config} {s : State} {P : State → Prop}

theorem receive_elim {msg : AggregatorMsg} (refused : P { s with seq := s.seq + 1 })
    (urgent : ∀ p, emerges cfg msg = true → emergeFrame cfg msg = some p → P { s with
      seq := s.seq + 1
      sent := s.sent ++ [⟨p, msg.routingKey, msg.nextHop, [⟨s.seq, msg⟩]⟩]
      accepted := s.accepted ++ [⟨s.seq, msg⟩] })
    (absent : emerges cfg msg = false → s.find msg = none →
      P { s with seq := s.seq + 1, handler := .absent ⟨s.seq, msg⟩ })
    (located : ∀ b, emerges cfg msg = false → s.find msg = some b →
      P { s with seq := s.seq + 1, handler := .located ⟨s.seq, msg⟩ b }) :
    P (s.receive cfg msg) := by
  unfold receive
  split
  · rename_i now
    split
    · exact refused
    · rename_i p built
      exact urgent p now built
  · rename_i later
    have later : emerges cfg msg = false := by simpa using later
    split
    · rename_i none
      exact absent later none
    · rename_i b found
      exact located b later found

theorem create_handler (s : State) (cfg : Config) (t : Ticket) (times : List Int) :
    (s.create cfg t times).handler = .idle ∨
      ∃ b ∈ ((s.putNew t.msg.routingKey times.length).lookup t.msg.routingKey).getD [],
        (s.create cfg t times).handler = .located t b := by
  simp only [create]
  split
  · exact .inl rfl
  · rename_i b picked
    exact .inr ⟨b, pick_mem picked, rfl⟩

theorem append_elim {t : Ticket} {b : Nat} {batch : Batch} (full : P { s with handler := .full t })
    (record : ∀ pkt, batch.pkt.appendUserPacket t.msg.userID t.msg.data = some pkt → P { s with
      mem := s.mem.set b (batch.record pkt t)
      handler := .appended t b
      accepted := s.accepted ++ [t] }) : P (s.append t b batch) := by
  unfold append
  split
  · exact full
  · split
    · exact full
    · rename_i pkt accepted
      exact record pkt accepted

theorem appendNew_elim {t : Ticket} {b : Nat} {batch : Batch}
    (refused : P { s with handler := .appended t b })
    (record : ∀ pkt, batch.pkt.appendUserPacket t.msg.userID t.msg.data = some pkt → P { s with
      mem := s.mem.set b (batch.record pkt t)
      handler := .appended t b
      accepted := s.accepted ++ [t] }) : P (s.appendNew t b batch) := by
  unfold appendNew
  split
  · exact refused
  · rename_i pkt accepted
    exact record pkt accepted

theorem evict_elim {now : Int} {key : String} {v : List Nat} {todo : List (String × List Nat)}
    (crash : removeItems s.mem s.heap v = none → P { s with crashed := true })
    (gone : ∀ heap, removeItems s.mem s.heap v = some heap → P { s with
      heap := heap
      batches := s.batches.filter fun kv => kv.1 ≠ key
      evictor := .scanning now todo }) : P (s.evict now key v todo) := by
  unfold evict
  split
  · rename_i none
    exact crash none
  · rename_i heap removed
    exact gone heap removed

end

end State

/-! ## Steps -/

/-- The sections, with what they read from outside: a message, or the clock. -/
inductive Event
  | receive (msg : AggregatorMsg)
  | create (times : List Int)
  | append
  | openBatch (time : Int)
  | appendNew
  | push (now : Int)
  | unlock
  | expire (now : Int)
  | flushBatch
  | flush
  | snapshot (now : Int)
  | visit
  | readTime
  | evict

/-- The sections of `evictStaleBatches`. -/
def Event.evicts : Event → Bool
  | .snapshot _ | .visit | .readTime | .evict => true
  | _ => false

/-- One step of one of the goroutines. A section that needs a batch's lock waits while
`handleMsg` holds it. `SerializeHead` panics on a buffer shorter than the header, and a
crash ends everything. -/
inductive Step (s : State) : Event → State → Prop
  | receive (msg : AggregatorMsg) : s.crashed = false → s.handler = .idle →
      Step s (.receive msg) (s.receive cfg msg)
  | create {t : Ticket} (times : List Int) : s.crashed = false → s.handler = .absent t →
      times.length = batchNum cfg t.msg → Step s (.create times) (s.create cfg t times)
  | append {t : Ticket} {b : Nat} {batch : Batch} : s.crashed = false → s.handler = .located t b →
      s.mem[b]? = some batch → Step s .append (s.append t b batch)
  | openBatch {t : Ticket} (time : Int) : s.crashed = false → s.handler = .full t →
      Step s (.openBatch time) (s.openBatch cfg t time)
  | appendNew {t : Ticket} {b : Nat} {batch : Batch} : s.crashed = false →
      s.handler = .opened t b → s.mem[b]? = some batch → Step s .appendNew (s.appendNew t b batch)
  | push {t : Ticket} {b : Nat} {batch : Batch} (now : Int) : s.crashed = false →
      s.handler = .appended t b → s.mem[b]? = some batch → batch.heapItem = none →
      Step s (.push now) (s.push cfg t b now)
  | keep {t : Ticket} {b : Nat} {batch : Batch} : s.crashed = false → s.handler = .appended t b →
      s.mem[b]? = some batch → batch.heapItem ≠ none → Step s .unlock { s with handler := .idle }
  | finish {t : Ticket} {b : Nat} {item : HeapItem} {batch : Batch} : s.crashed = false →
      s.handler = .pushed t b item → s.mem[b]? = some batch →
      Step s .unlock (s.finish b batch item)
  | expire (now : Int) : s.crashed = false → s.timer = .idle → Step s (.expire now) (s.expire now)
  | flushBatch {now : Int} {item : HeapItem} {rest : List HeapItem} {toSend : List SendInfo}
      {batch : Batch} : s.crashed = false → s.timer = .flushing now (item :: rest) toSend →
      s.handler.locked ≠ some item.batch → s.mem[item.batch]? = some batch →
      headerSize ≤ batch.pkt.buf.length →
      Step s .flushBatch (s.flushBatch now item rest toSend batch)
  | shortBuffer {now : Int} {item : HeapItem} {rest : List HeapItem} {toSend : List SendInfo}
      {batch : Batch} : s.crashed = false → s.timer = .flushing now (item :: rest) toSend →
      s.handler.locked ≠ some item.batch → s.mem[item.batch]? = some batch →
      batch.pkt.buf.length < headerSize → Step s .flushBatch { s with crashed := true }
  | flush {now : Int} {toSend : List SendInfo} : s.crashed = false →
      s.timer = .flushing now [] toSend → Step s .flush (s.flush toSend)
  | snapshot (now : Int) {todo : List (String × List Nat)} : s.crashed = false →
      s.evictor = .idle → todo.Perm s.batches →
      Step s (.snapshot now) { s with evictor := .scanning now todo }
  | done {now : Int} : s.crashed = false → s.evictor = .scanning now [] →
      Step s .visit { s with evictor := .idle }
  | visit {now : Int} {key : String} {v : List Nat} {todo : List (String × List Nat)} :
      s.crashed = false → s.evictor = .scanning now ((key, v) :: todo) →
      Step s .visit { s with evictor := .checking now key v v false todo }
  | readTime {now : Int} {key : String} {v left : List Nat} {b : Nat} {bDel : Bool}
      {todo : List (String × List Nat)} {batch : Batch} : s.crashed = false →
      s.evictor = .checking now key v (b :: left) bDel todo → s.mem[b]? = some batch →
      Step s .readTime { s with
        evictor := .checking now key v left (bDel || batchMaxAge < now - batch.createTime) todo }
  | fresh {now : Int} {key : String} {v : List Nat} {todo : List (String × List Nat)} :
      s.crashed = false → s.evictor = .checking now key v [] false todo →
      Step s .evict { s with evictor := .scanning now todo }
  | evict {now : Int} {key : String} {v : List Nat} {todo : List (String × List Nat)} :
      s.crashed = false → s.evictor = .checking now key v [] true todo →
      Step s .evict (s.evict now key v todo)

/-! ## Runs that can be executed -/

/-- The step for an event, if it is possible. A snapshot keeps the order of the map. -/
def State.next (s : State) (e : Event) : Option State :=
  if s.crashed then none
  else
    match e with
    | .receive msg => if s.handler = .idle then some (s.receive cfg msg) else none
    | .create times =>
      match s.handler with
      | .absent t => if times.length = batchNum cfg t.msg then some (s.create cfg t times) else none
      | _ => none
    | .append =>
      match s.handler with
      | .located t b => s.mem[b]?.map (s.append t b)
      | _ => none
    | .openBatch time =>
      match s.handler with
      | .full t => some (s.openBatch cfg t time)
      | _ => none
    | .appendNew =>
      match s.handler with
      | .opened t b => s.mem[b]?.map (s.appendNew t b)
      | _ => none
    | .push now =>
      match s.handler with
      | .appended t b =>
        s.mem[b]?.bind fun batch =>
          if batch.heapItem = none then some (s.push cfg t b now) else none
      | _ => none
    | .unlock =>
      match s.handler with
      | .appended _ b =>
        s.mem[b]?.bind fun batch =>
          if batch.heapItem = none then none else some { s with handler := .idle }
      | .pushed _ b item => s.mem[b]?.map fun batch => s.finish b batch item
      | _ => none
    | .expire now =>
      match s.timer with
      | .idle => some (s.expire now)
      | _ => none
    | .flushBatch =>
      match s.timer with
      | .flushing now (item :: rest) toSend =>
        if s.handler.locked = some item.batch then none
        else s.mem[item.batch]?.map fun batch =>
          if headerSize ≤ batch.pkt.buf.length then s.flushBatch now item rest toSend batch
          else { s with crashed := true }
      | _ => none
    | .flush =>
      match s.timer with
      | .flushing _ [] toSend => some (s.flush toSend)
      | _ => none
    | .snapshot now =>
      match s.evictor with
      | .idle => some { s with evictor := .scanning now s.batches }
      | _ => none
    | .visit =>
      match s.evictor with
      | .scanning _ [] => some { s with evictor := .idle }
      | .scanning now ((key, v) :: todo) =>
        some { s with evictor := .checking now key v v false todo }
      | _ => none
    | .readTime =>
      match s.evictor with
      | .checking now key v (b :: left) bDel todo =>
        s.mem[b]?.map fun batch => { s with
          evictor := .checking now key v left (bDel || batchMaxAge < now - batch.createTime) todo }
      | _ => none
    | .evict =>
      match s.evictor with
      | .checking now key v [] bDel todo =>
        some (if bDel then s.evict now key v todo else { s with evictor := .scanning now todo })
      | _ => none

theorem step_of_next {s s' : State} {e : Event} (h : s.next cfg e = some s') : Step cfg s e s' := by
  unfold State.next at h
  split at h
  · cases h
  · rename_i up
    have up : s.crashed = false := by simpa using up
    cases e with
    | receive msg =>
      simp only at h
      split at h
      · rename_i idle
        obtain rfl := Option.some.inj h
        exact .receive msg up idle
      · cases h
    | create times =>
      simp only at h
      split at h
      · rename_i absent
        split at h
        · rename_i length
          obtain rfl := Option.some.inj h
          exact .create times up absent length
        · cases h
      · cases h
    | append =>
      simp only at h
      split at h
      · rename_i located
        obtain ⟨batch, hb, rfl⟩ := Option.map_eq_some_iff.mp h
        exact .append up located hb
      · cases h
    | openBatch time =>
      simp only at h
      split at h
      · rename_i full
        obtain rfl := Option.some.inj h
        exact .openBatch time up full
      · cases h
    | appendNew =>
      simp only at h
      split at h
      · rename_i opened
        obtain ⟨batch, hb, rfl⟩ := Option.map_eq_some_iff.mp h
        exact .appendNew up opened hb
      · cases h
    | push now =>
      simp only at h
      split at h
      · rename_i appended
        obtain ⟨batch, hb, h⟩ := Option.bind_eq_some_iff.mp h
        split at h
        · rename_i untimed
          obtain rfl := Option.some.inj h
          exact .push now up appended hb untimed
        · cases h
      · cases h
    | unlock =>
      simp only at h
      split at h
      · rename_i appended
        obtain ⟨batch, hb, h⟩ := Option.bind_eq_some_iff.mp h
        split at h
        · cases h
        · rename_i timed
          obtain rfl := Option.some.inj h
          exact .keep up appended hb timed
      · rename_i pushed
        obtain ⟨batch, hb, rfl⟩ := Option.map_eq_some_iff.mp h
        exact .finish up pushed hb
      · cases h
    | expire now =>
      simp only at h
      split at h
      · rename_i idle
        obtain rfl := Option.some.inj h
        exact .expire now up idle
      · cases h
    | flushBatch =>
      simp only at h
      split at h
      · rename_i timer
        split at h
        · cases h
        · rename_i free
          obtain ⟨batch, hb, rfl⟩ := Option.map_eq_some_iff.mp h
          split
          · rename_i room
            exact .flushBatch up timer free hb room
          · rename_i short
            exact .shortBuffer up timer free hb (not_le.mp short)
      · cases h
    | flush =>
      simp only at h
      split at h
      · rename_i done
        obtain rfl := Option.some.inj h
        exact .flush up done
      · cases h
    | snapshot now =>
      simp only at h
      split at h
      · rename_i idle
        obtain rfl := Option.some.inj h
        exact .snapshot now up idle (.refl _)
      · cases h
    | visit =>
      simp only at h
      split at h
      · rename_i done
        obtain rfl := Option.some.inj h
        exact .done up done
      · rename_i more
        obtain rfl := Option.some.inj h
        exact .visit up more
      · cases h
    | readTime =>
      simp only at h
      split at h
      · rename_i checking
        obtain ⟨batch, hb, rfl⟩ := Option.map_eq_some_iff.mp h
        exact .readTime up checking hb
      · cases h
    | evict =>
      simp only at h
      split at h
      · rename_i bDel todo checking
        obtain rfl := Option.some.inj h
        cases bDel with
        | false => exact .fresh up checking
        | true => exact .evict up checking
      · cases h

def State.execute (s : State) (es : List Event) : Option State := es.foldlM (State.next cfg) s

theorem execute_cons {s s' : State} {e : Event} {es : List Event}
    (h : s.execute cfg (e :: es) = some s') :
    ∃ s₁, s.next cfg e = some s₁ ∧ s₁.execute cfg es = some s' :=
  Option.bind_eq_some_iff.mp h

theorem run_of_execute {ok : State → Event → Prop} {s s' : State} {es : List Event}
    (h : s.execute cfg es = some s') (meets : ∀ e ∈ es, ∀ s, ok s e) : Run (Step cfg) ok s s' := by
  induction es generalizing s with
  | nil =>
    obtain rfl := Option.some.inj h
    exact .start
  | cons e es ih =>
    obtain ⟨s₁, first, rest⟩ := execute_cons cfg h
    exact (Run.single (meets e List.mem_cons_self s) (step_of_next cfg first)).trans
      (ih rest fun e' he' => meets e' (List.mem_cons_of_mem _ he'))

end SkyAccel.Aggregator
