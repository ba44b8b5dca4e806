import SkyAccel.Aggregator.Delivery
import SkyAccel.Lib.Tally
import Mathlib.Data.Multiset.Range
import Mathlib.Algebra.Order.Group.Multiset

/-!
# From the shards to the tunnel

The end of `aggregator_v2.go`. A goroutine of a shard takes a buffer from `bufPool`, copies
its frame into it and puts a `sendTask` on one channel. The dispatcher hands each task to a
send worker that the routing key chooses. A worker gives the bytes of the buffer to
`SendPacket` and puts the buffer back.

The buffers are shared by all goroutines, and a task has only the number of its buffer. What a
worker sends is nevertheless the frame that the task was made for, and the frames of a routing
key leave in the order in which they came (`frames_in_order`): a buffer is in one place at a
time (`Sound.owned`). And whatever is under way can come to its end (`reaches_settled`).

The bytes in the frame of a task are history, and so are `put`, the frames put on the channel,
and `sent`, what `SendPacket` was called with.
-/

namespace SkyAccel.Aggregator

open scoped List

/-- The capacity of a pooled buffer. -/
def bufCap : Nat := 64 * 1024

def sendTaskChSize : Nat := 10000

def taskChSize : Nat := 100

structure Frame where
  p : List UInt8
  routingKey : String
  nextHop : Option UInt32
  deriving DecidableEq

/-- `sendTask`, which has the first `len` bytes of a buffer. -/
structure SendTask where
  buf : Nat
  len : Nat
  frame : Frame
  deriving DecidableEq

/-- A goroutine of a shard that has a frame to send: it has a buffer, or has filled it. -/
inductive Producer
  | idle
  | copying (frame : Frame) (buf : Nat)
  | sending (task : SendTask)
  deriving DecidableEq

/-- What a send worker has in hand: a task to send, or one sent whose buffer is not yet back. -/
inductive Hand
  | idle
  | holding (task : SendTask)
  | done (task : SendTask)
  deriving DecidableEq

structure SendWorker where
  taskCh : List SendTask
  hand : Hand
  deriving DecidableEq

structure Pipeline where
  mem : List (List UInt8)
  bufPool : List Nat
  producers : List Producer
  sendTaskCh : List SendTask
  dispatcher : Option SendTask
  sendWorkers : List SendWorker
  crashed : Bool
  put : List Frame
  sent : List Frame
  deriving DecidableEq

/-- `get j frame i` takes buffer `i` of the pool for producer `j`, or a new one if there are
not so many, and `collect` is the garbage collector. -/
inductive PipelineEvent
  | get (j : Nat) (frame : Frame) (i : Nat)
  | copy (j : Nat)
  | put (j : Nat)
  | dispatch
  | forward
  | take (w : Nat)
  | sendPacket (w : Nat)
  | release (w : Nat)
  | collect (i : Nat)

namespace PipelineEvent

/-- The event brings no new frame. -/
def settles : PipelineEvent → Bool
  | .get _ _ _ => false
  | _ => true

end PipelineEvent

namespace Pipeline

def init (producers workers : Nat) : Pipeline where
  mem := []
  bufPool := []
  producers := List.replicate producers .idle
  sendTaskCh := []
  dispatcher := none
  sendWorkers := List.replicate workers ⟨[], .idle⟩
  crashed := false
  put := []
  sent := []

variable (s : Pipeline)

/-- The bytes of a task, as its buffer has them. -/
def bytes (task : SendTask) : List UInt8 := (s.mem.getD task.buf []).take task.len

/-- `copy` to the beginning of a buffer. -/
def fill (frame : Frame) (buf : Nat) : List (List UInt8) :=
  s.mem.set buf (frame.p ++ (s.mem.getD buf []).drop frame.p.length)

/-- `hashRoutingKey(key) % len(a.sendWorkers)` -/
def index (key : String) : Nat := hashRoutingKey key % s.sendWorkers.length

def next (e : PipelineEvent) : Option Pipeline :=
  if s.crashed then none
  else
    match e with
    | .get j frame i =>
      match s.producers[j]? with
      | some .idle =>
        if bufCap < frame.p.length then some { s with crashed := true }
        else
          match s.bufPool[i]? with
          | some b => some { s with
              bufPool := s.bufPool.eraseIdx i
              producers := s.producers.set j (.copying frame b) }
          | none => some { s with
              mem := s.mem ++ [List.replicate bufCap 0]
              producers := s.producers.set j (.copying frame s.mem.length) }
      | _ => none
    | .copy j =>
      match s.producers[j]? with
      | some (.copying frame b) => some { s with
          mem := s.fill frame b
          producers := s.producers.set j (.sending ⟨b, frame.p.length, frame⟩) }
      | _ => none
    | .put j =>
      match s.producers[j]? with
      | some (.sending task) =>
        if s.sendTaskCh.length < sendTaskChSize then some { s with
            producers := s.producers.set j .idle
            sendTaskCh := s.sendTaskCh ++ [task]
            put := s.put ++ [task.frame] }
        else none
      | _ => none
    | .dispatch =>
      match s.dispatcher, s.sendTaskCh with
      | none, task :: rest => some { s with dispatcher := some task, sendTaskCh := rest }
      | _, _ => none
    | .forward =>
      match s.dispatcher with
      | some task =>
        match s.sendWorkers[s.index task.frame.routingKey]? with
        | some worker =>
          if worker.taskCh.length < taskChSize then some { s with
              dispatcher := none
              sendWorkers := s.sendWorkers.set (s.index task.frame.routingKey)
                { worker with taskCh := worker.taskCh ++ [task] } }
          else none
        | none => none
      | none => none
    | .take w =>
      match s.sendWorkers[w]? with
      | some ⟨task :: rest, .idle⟩ =>
        some { s with sendWorkers := s.sendWorkers.set w ⟨rest, .holding task⟩ }
      | _ => none
    | .sendPacket w =>
      match s.sendWorkers[w]? with
      | some ⟨taskCh, .holding task⟩ => some { s with
          sendWorkers := s.sendWorkers.set w ⟨taskCh, .done task⟩
          sent := s.sent ++ [{ task.frame with p := s.bytes task }] }
      | _ => none
    | .release w =>
      match s.sendWorkers[w]? with
      | some ⟨taskCh, .done task⟩ => some { s with
          bufPool := task.buf :: s.bufPool
          sendWorkers := s.sendWorkers.set w ⟨taskCh, .idle⟩ }
      | _ => none
    | .collect i =>
      match s.bufPool[i]? with
      | some _ => some { s with bufPool := s.bufPool.eraseIdx i }
      | none => none

/-! ## What a step can do -/

inductive Step : PipelineEvent → Pipeline → Prop
  | crash {j i : Nat} {frame : Frame} : s.crashed = false → bufCap < frame.p.length →
      Step (.get j frame i) { s with crashed := true }
  | reuse {j i b : Nat} {frame : Frame} : s.crashed = false → s.producers[j]? = some .idle →
      frame.p.length ≤ bufCap → s.bufPool[i]? = some b → Step (.get j frame i) { s with
        bufPool := s.bufPool.eraseIdx i
        producers := s.producers.set j (.copying frame b) }
  | fresh {j i : Nat} {frame : Frame} : s.crashed = false → s.producers[j]? = some .idle →
      frame.p.length ≤ bufCap → Step (.get j frame i) { s with
        mem := s.mem ++ [List.replicate bufCap 0]
        producers := s.producers.set j (.copying frame s.mem.length) }
  | copy {j b : Nat} {frame : Frame} : s.crashed = false →
      s.producers[j]? = some (.copying frame b) → Step (.copy j) { s with
        mem := s.fill frame b
        producers := s.producers.set j (.sending ⟨b, frame.p.length, frame⟩) }
  | put {j : Nat} {task : SendTask} : s.crashed = false →
      s.producers[j]? = some (.sending task) → s.sendTaskCh.length < sendTaskChSize →
      Step (.put j) { s with
        producers := s.producers.set j .idle
        sendTaskCh := s.sendTaskCh ++ [task]
        put := s.put ++ [task.frame] }
  | dispatch {task : SendTask} {rest : List SendTask} : s.crashed = false →
      s.dispatcher = none → s.sendTaskCh = task :: rest →
      Step .dispatch { s with dispatcher := some task, sendTaskCh := rest }
  | forward {task : SendTask} {worker : SendWorker} : s.crashed = false →
      s.dispatcher = some task → s.sendWorkers[s.index task.frame.routingKey]? = some worker →
      worker.taskCh.length < taskChSize → Step .forward { s with
        dispatcher := none
        sendWorkers := s.sendWorkers.set (s.index task.frame.routingKey)
          { worker with taskCh := worker.taskCh ++ [task] } }
  | take {w : Nat} {task : SendTask} {rest : List SendTask} : s.crashed = false →
      s.sendWorkers[w]? = some ⟨task :: rest, .idle⟩ →
      Step (.take w) { s with sendWorkers := s.sendWorkers.set w ⟨rest, .holding task⟩ }
  | sendPacket {w : Nat} {task : SendTask} {taskCh : List SendTask} : s.crashed = false →
      s.sendWorkers[w]? = some ⟨taskCh, .holding task⟩ → Step (.sendPacket w) { s with
        sendWorkers := s.sendWorkers.set w ⟨taskCh, .done task⟩
        sent := s.sent ++ [{ task.frame with p := s.bytes task }] }
  | release {w : Nat} {task : SendTask} {taskCh : List SendTask} : s.crashed = false →
      s.sendWorkers[w]? = some ⟨taskCh, .done task⟩ → Step (.release w) { s with
        bufPool := task.buf :: s.bufPool
        sendWorkers := s.sendWorkers.set w ⟨taskCh, .idle⟩ }
  | collect {i b : Nat} : s.crashed = false → s.bufPool[i]? = some b →
      Step (.collect i) { s with bufPool := s.bufPool.eraseIdx i }

variable {s} {s' : Pipeline} {e : PipelineEvent}

theorem step_of_next (h : s.next e = some s') : Step s e s' := by
  unfold next at h
  split at h
  · cases h
  · rename_i up
    have up : s.crashed = false := by simpa using up
    cases e with
    | get j frame i =>
      simp only at h
      split at h
      · rename_i idle
        split at h
        · rename_i long
          obtain rfl := Option.some.inj h
          exact .crash up long
        · rename_i short
          split at h
          · rename_i pooled
            obtain rfl := Option.some.inj h
            exact .reuse up idle (not_lt.mp short) pooled
          · obtain rfl := Option.some.inj h
            exact .fresh up idle (not_lt.mp short)
      · cases h
    | copy j =>
      simp only at h
      split at h
      · rename_i copying
        obtain rfl := Option.some.inj h
        exact .copy up copying
      · cases h
    | put j =>
      simp only at h
      split at h
      · rename_i sending
        split at h
        · rename_i room
          obtain rfl := Option.some.inj h
          exact .put up sending room
        · cases h
      · cases h
    | dispatch =>
      simp only at h
      split at h
      · rename_i idle waiting
        obtain rfl := Option.some.inj h
        exact .dispatch up idle waiting
      · cases h
    | forward =>
      simp only at h
      split at h
      · rename_i inHand
        split at h
        · rename_i chosen
          split at h
          · rename_i room
            obtain rfl := Option.some.inj h
            exact .forward up inHand chosen room
          · cases h
        · cases h
      · cases h
    | take w =>
      simp only at h
      split at h
      · rename_i waiting
        obtain rfl := Option.some.inj h
        exact .take up waiting
      · cases h
    | sendPacket w =>
      simp only at h
      split at h
      · rename_i holding
        obtain rfl := Option.some.inj h
        exact .sendPacket up holding
      · cases h
    | release w =>
      simp only at h
      split at h
      · rename_i done
        obtain rfl := Option.some.inj h
        exact .release up done
      · cases h
    | collect i =>
      simp only at h
      split at h
      · rename_i pooled
        obtain rfl := Option.some.inj h
        exact .collect up pooled
      · cases h

/-! ## One buffer, one place -/

end Pipeline

def Producer.copying? : Producer → Multiset Nat
  | .copying _ b => {b}
  | _ => 0

def Producer.tasks : Producer → Multiset SendTask
  | .sending task => {task}
  | _ => 0

def Hand.tasks : Hand → Multiset SendTask
  | .idle => 0
  | .holding task => {task}
  | .done task => {task}

namespace SendWorker

def tasks (w : SendWorker) : Multiset SendTask := w.taskCh + w.hand.tasks

/-- The tasks still to be sent, in order. -/
def waiting : SendWorker → List SendTask
  | ⟨taskCh, .holding task⟩ => task :: taskCh
  | ⟨taskCh, _⟩ => taskCh

end SendWorker

namespace Pipeline

variable {s s' : Pipeline} {e : PipelineEvent}

/-- All tasks there are, until their buffers are back. -/
def tasks (s : Pipeline) : Multiset SendTask :=
  tally Producer.tasks s.producers + s.sendTaskCh + s.dispatcher.toList +
    tally SendWorker.tasks s.sendWorkers

def copying (s : Pipeline) : Multiset Nat := tally Producer.copying? s.producers

def bufs (s : Pipeline) : Multiset Nat := s.bufPool + s.copying + s.tasks.map SendTask.buf

def of (key : String) (frames : List Frame) : List Frame :=
  frames.filter fun frame => frame.routingKey = key

/-- The tasks of the send worker of a routing key that are still to be sent, in order. -/
def atWorker (s : Pipeline) (key : String) : List SendTask :=
  s.sendWorkers[s.index key]?.elim [] SendWorker.waiting

/-- The tasks on the way of a routing key that are still to be sent, in order. -/
def line (s : Pipeline) (key : String) : List SendTask :=
  s.atWorker key ++ s.dispatcher.toList ++ s.sendTaskCh

structure Sound (s : Pipeline) : Prop where
  owned : s.bufs ≤ Multiset.range s.mem.length
  intact : ∀ task ∈ s.tasks, s.bytes task = task.frame.p
  routed : ∀ w worker, s.sendWorkers[w]? = some worker →
    ∀ task ∈ worker.waiting, s.index task.frame.routingKey = w
  ordered : ∀ key, of key s.sent ++ of key ((s.line key).map SendTask.frame) = of key s.put

/-- What a step does to the buffers: it may drop some, make one or fill one. -/
inductive Change (s s' : Pipeline) : Prop
  | kept : s'.mem = s.mem → s'.tasks ≤ s.tasks → s'.bufs ≤ s.bufs → Change s s'
  | made (buf : List UInt8) : s'.mem = s.mem ++ [buf] → s'.tasks = s.tasks →
      s'.bufs = s.bufs + {s.mem.length} → Change s s'
  | filled (frame : Frame) (b : Nat) : s'.mem = s.fill frame b →
      s'.tasks = s.tasks + {⟨b, frame.p.length, frame⟩} → s'.bufs = s.bufs → b ∈ s.copying →
      Change s s'

theorem Change.of_tasks (mem : s'.mem = s.mem) (tasks : s'.tasks = s.tasks)
    (copying : s'.copying = s.copying) (bufPool : s'.bufPool = s.bufPool) : Change s s' :=
  .kept mem (le_of_eq tasks) (le_of_eq (by simp only [bufs, tasks, copying, bufPool]))

/-- A buffer leaves the pool. -/
theorem coe_eraseIdx {pool : List Nat} {i b : Nat} (h : pool[i]? = some b) :
    (pool.eraseIdx i : Multiset Nat) + {b} = pool := by
  obtain ⟨inside, rfl⟩ := List.getElem?_eq_some_iff.mp h
  rw [add_comm, Multiset.singleton_add, Multiset.cons_coe]
  exact Multiset.coe_eq_coe.mpr (List.getElem_cons_eraseIdx_perm inside)

theorem Step.change (h : Step s e s') : Change s s' := by
  cases h with
  | crash => exact .of_tasks rfl rfl rfl rfl
  | @reuse j i b frame _ idle _ pooled =>
    have copied : tally Producer.copying? (s.producers.set j (.copying frame b)) =
      tally Producer.copying? s.producers + {b} := tally_set_more idle (zero_add _).symm
    have same : tally Producer.tasks (s.producers.set j (.copying frame b)) =
      tally Producer.tasks s.producers := tally_set_same idle rfl
    refine .kept rfl (le_of_eq ?_) (le_of_eq ?_)
    · simp only [tasks, same]
    · simp only [bufs, copying, tasks, same, copied, ← coe_eraseIdx pooled]
      abel
  | @fresh j i frame _ idle =>
    have copied : tally Producer.copying? (s.producers.set j (.copying frame s.mem.length)) =
      tally Producer.copying? s.producers + {s.mem.length} :=
        tally_set_more idle (zero_add _).symm
    have same : tally Producer.tasks (s.producers.set j (.copying frame s.mem.length)) =
      tally Producer.tasks s.producers := tally_set_same idle rfl
    refine .made _ rfl ?_ ?_
    · simp only [tasks, same]
    · simp only [bufs, copying, tasks, same, copied]
      abel
  | @copy j b frame _ copying =>
    have copied : tally Producer.copying?
        (s.producers.set j (.sending ⟨b, frame.p.length, frame⟩)) + {b} =
      tally Producer.copying? s.producers := tally_set_less copying (zero_add _).symm
    have more : tally Producer.tasks
        (s.producers.set j (.sending ⟨b, frame.p.length, frame⟩)) =
      tally Producer.tasks s.producers + {⟨b, frame.p.length, frame⟩} :=
        tally_set_more copying (zero_add _).symm
    have gained : Pipeline.tasks { s with
        mem := s.fill frame b
        producers := s.producers.set j (.sending ⟨b, frame.p.length, frame⟩) } =
        s.tasks + {⟨b, frame.p.length, frame⟩} := by
      simp only [tasks, more]
      abel
    refine .filled frame b rfl gained ?_ ?_
    · simp only [bufs, gained, Pipeline.copying, ← copied, Multiset.map_add, Multiset.map_singleton]
      abel
    · exact mem_tally.mpr ⟨_, List.mem_of_getElem? copying, Multiset.mem_singleton_self b⟩
  | @put j task _ sending =>
    have moved : tally Producer.tasks (s.producers.set j .idle) + {task} =
      tally Producer.tasks s.producers := tally_set_less sending (zero_add _).symm
    refine .of_tasks rfl ?_ (tally_set_same sending rfl) rfl
    simp only [tasks, ← moved, ← Multiset.coe_add, Multiset.coe_singleton]
    abel
  | @dispatch task rest _ idle waiting =>
    refine .of_tasks rfl ?_ rfl rfl
    simp only [tasks, idle, waiting, Option.toList, ← Multiset.cons_coe, Multiset.coe_nil,
      ← Multiset.singleton_add]
    abel
  | @forward task worker _ inHand chosen =>
    have moved : tally SendWorker.tasks (s.sendWorkers.set (s.index task.frame.routingKey)
        { worker with taskCh := worker.taskCh ++ [task] }) =
        tally SendWorker.tasks s.sendWorkers + {task} := by
      refine tally_set_more chosen ?_
      simp only [SendWorker.tasks, ← Multiset.coe_add, Multiset.coe_singleton]
      abel
    refine .of_tasks rfl ?_ rfl rfl
    simp only [tasks, inHand, moved, Option.toList, Multiset.coe_nil, Multiset.coe_singleton]
    abel
  | @take w task rest _ waiting =>
    have same : tally SendWorker.tasks (s.sendWorkers.set w ⟨rest, .holding task⟩) =
        tally SendWorker.tasks s.sendWorkers := by
      refine tally_set_same waiting ?_
      simp only [SendWorker.tasks, Hand.tasks, ← Multiset.cons_coe, ← Multiset.singleton_add]
      abel
    exact .of_tasks rfl (by simp only [tasks, same]) rfl rfl
  | @sendPacket w task taskCh _ holding =>
    have same : tally SendWorker.tasks (s.sendWorkers.set w ⟨taskCh, .done task⟩) =
      tally SendWorker.tasks s.sendWorkers := tally_set_same holding rfl
    exact .of_tasks rfl (by simp only [tasks, same]) rfl rfl
  | @release w task taskCh _ done =>
    have moved : tally SendWorker.tasks (s.sendWorkers.set w ⟨taskCh, .idle⟩) + {task} =
      tally SendWorker.tasks s.sendWorkers :=
        tally_set_less done (by simp [SendWorker.tasks, Hand.tasks])
    refine .kept rfl ?_ (le_of_eq ?_)
    · simp only [tasks, ← moved, ← add_assoc]
      exact Multiset.le_add_right _ _
    · simp only [bufs, copying, tasks, ← moved, Multiset.map_add, Multiset.map_singleton,
        ← Multiset.cons_coe, ← Multiset.singleton_add]
      abel
  | @collect i b _ pooled =>
    refine .kept rfl le_rfl ?_
    simp only [bufs, copying, tasks, ← coe_eraseIdx pooled]
    exact add_le_add_left (add_le_add_left (Multiset.le_add_right _ _) _) _

/-! ## What every step keeps -/

theorem Sound.owned_step (h : s.Sound) (move : Step s e s') :
    s'.bufs ≤ Multiset.range s'.mem.length := by
  cases move.change with
  | kept mem _ fewer =>
    rw [mem]
    exact fewer.trans h.owned
  | made buf mem _ more =>
    rw [mem, more, List.length_append, List.length_singleton, Multiset.range_succ,
      ← Multiset.singleton_add, add_comm]
    exact add_le_add_right h.owned _
  | filled frame b mem _ same =>
    rw [mem, same, fill, List.length_set]
    exact h.owned

/-- A buffer that is being filled is no task's. -/
theorem Sound.apart (h : s.Sound) {b : Nat} (copying : b ∈ s.copying) {task : SendTask}
    (mem : task ∈ s.tasks) : task.buf ≠ b := by
  rintro rfl
  have once := Multiset.nodup_of_le h.owned (Multiset.nodup_range _)
  exact Multiset.disjoint_left.mp (Multiset.nodup_add.mp once).2.2
    (Multiset.mem_add.mpr (.inr copying)) (Multiset.mem_map_of_mem _ mem)

theorem bytes_fill_other {frame : Frame} {b : Nat} {task : SendTask} (apart : task.buf ≠ b)
    (mem : s'.mem = s.fill frame b) : s'.bytes task = s.bytes task := by
  simp [bytes, mem, fill, List.getElem?_set_ne apart.symm]

theorem bytes_fill_same {frame : Frame} {b : Nat} (inside : b < s.mem.length)
    (mem : s'.mem = s.fill frame b) : s'.bytes ⟨b, frame.p.length, frame⟩ = frame.p := by
  simp [bytes, mem, fill, inside]

theorem Sound.inside (h : s.Sound) {b : Nat} (mem : b ∈ s.bufs) : b < s.mem.length :=
  Multiset.mem_range.mp (Multiset.mem_of_le h.owned mem)

theorem Sound.intact_step (h : s.Sound) (move : Step s e s') :
    ∀ task ∈ s'.tasks, s'.bytes task = task.frame.p := by
  intro task mem
  cases move.change with
  | kept same fewer =>
    rw [bytes, same]
    exact h.intact task (Multiset.mem_of_le fewer mem)
  | made buf more same =>
    rw [same] at mem
    have inside : task.buf < s.mem.length :=
      h.inside (Multiset.mem_add.mpr (.inr (Multiset.mem_map_of_mem _ mem)))
    rw [bytes, more, List.getD_append _ _ _ _ inside]
    exact h.intact task mem
  | filled frame b content more _ copying =>
    rw [more] at mem
    cases Multiset.mem_add.mp mem with
    | inl old =>
      rw [bytes_fill_other (h.apart copying old) content]
      exact h.intact task old
    | inr new =>
      obtain rfl := Multiset.mem_singleton.mp new
      exact bytes_fill_same
        (h.inside (Multiset.mem_add.mpr (.inl (Multiset.mem_add.mpr (.inr copying))))) content

/-! ## The order of a routing key -/

section
variable {w : Nat} {worker worker' : SendWorker} {key : String}

theorem Step.workers_length (h : Step s e s') : s'.sendWorkers.length = s.sendWorkers.length := by
  cases h <;> simp only [List.length_set]

theorem Step.index_eq (h : Step s e s') (key : String) : s'.index key = s.index key := by
  rw [index, h.workers_length, index]

theorem waiting_append (worker : SendWorker) (task : SendTask) :
    SendWorker.waiting { worker with taskCh := worker.taskCh ++ [task] } =
      worker.waiting ++ [task] := by
  obtain ⟨taskCh, hand⟩ := worker
  cases hand <;> rfl

/-- A worker is replaced by one whose tasks are its own or of its routing keys. -/
theorem Sound.routed_set (h : s.Sound) (there : s.sendWorkers[w]? = some worker)
    (routed : ∀ task ∈ worker'.waiting,
      task ∈ worker.waiting ∨ s.index task.frame.routingKey = w) :
    ∀ v worker, (s.sendWorkers.set w worker')[v]? = some worker →
      ∀ task ∈ worker.waiting, s.index task.frame.routingKey = v := by
  intro v worker₁ found task mem
  rw [Store.getElem?_set there] at found
  split at found
  · rename_i here
    obtain rfl := Option.some.inj found
    rw [here]
    exact (routed task mem).elim (h.routed w worker there task) id
  · exact h.routed v worker₁ found task mem

theorem Sound.routed_step (h : s.Sound) (move : Step s e s') (w : Nat) (worker : SendWorker)
    (found : s'.sendWorkers[w]? = some worker) (task : SendTask) (mem : task ∈ worker.waiting) :
    s'.index task.frame.routingKey = w := by
  rw [move.index_eq]
  cases move with
  | crash | reuse | fresh | copy | put | dispatch | collect =>
    exact h.routed w worker found task mem
  | forward _ inHand chosen =>
    refine h.routed_set chosen (fun task mem => ?_) w worker found task mem
    rw [waiting_append] at mem
    cases List.mem_append.mp mem with
    | inl old => exact .inl old
    | inr new =>
      obtain rfl := List.mem_singleton.mp new
      exact .inr rfl
  | take _ waiting =>
    refine h.routed_set waiting ?_ w worker found task mem
    exact fun _ mem => .inl mem
  | sendPacket _ holding =>
    refine h.routed_set holding ?_ w worker found task mem
    exact fun _ mem => .inl (List.mem_cons_of_mem _ mem)
  | release _ done =>
    refine h.routed_set done ?_ w worker found task mem
    exact fun _ mem => .inl mem

theorem atWorker_of (there : s.sendWorkers[w]? = some worker) (here : s.index key = w) :
    s.atWorker key = worker.waiting := by
  rw [atWorker, here, there, Option.elim_some]

theorem atWorker_set (there : s.sendWorkers[w]? = some worker)
    (moved : s'.sendWorkers = s.sendWorkers.set w worker') (key : String) :
    s'.atWorker key = if s.index key = w then worker'.waiting else s.atWorker key := by
  rw [atWorker, index, moved, List.length_set, ← index, Store.getElem?_set there]
  split <;> rfl

theorem atWorker_set_same (there : s.sendWorkers[w]? = some worker) (worker' : SendWorker)
    (moved : s'.sendWorkers = s.sendWorkers.set w worker') (same : worker'.waiting = worker.waiting)
    (key : String) : s'.atWorker key = s.atWorker key := by
  rw [atWorker_set there moved]
  split
  · rename_i here
    rw [atWorker_of there here, same]
  · rfl

@[simp] theorem of_append (frames frames' : List Frame) :
    of key (frames ++ frames') = of key frames ++ of key frames' := List.filter_append _ _

theorem of_other {frame : Frame} (other : frame.routingKey ≠ key) (frames : List Frame) :
    of key (frame :: frames) = of key frames := by
  simp [of, other]

/-- The frame of a task that another worker has is of another routing key. -/
theorem other_key {task : SendTask} (elsewhere : s.index key ≠ s.index task.frame.routingKey) :
    task.frame.routingKey ≠ key := by
  rintro rfl
  exact elsewhere rfl

theorem Sound.ordered_step (h : s.Sound) (move : Step s e s') (key : String) :
    of key s'.sent ++ of key ((s'.line key).map SendTask.frame) = of key s'.put := by
  have before := h.ordered key
  cases move with
  | crash | reuse | fresh | copy | collect => exact before
  | put =>
    simp only [of_append, ← before]
    simp [line, atWorker, index]
  | dispatch _ idle waiting =>
    simpa [line, atWorker, index, idle, waiting] using before
  | @forward task worker _ inHand chosen =>
    rw [← before, line, atWorker_set chosen rfl]
    split
    · rename_i here
      simp [line, inHand, atWorker_of chosen here, waiting_append]
    · rename_i elsewhere
      simp [line, inHand, of_other (other_key elsewhere)]
  | @take w task rest _ waiting =>
    rw [← before, line, atWorker_set_same waiting ⟨rest, .holding task⟩ rfl rfl]
    rfl
  | @sendPacket w task taskCh _ holding =>
    have mem : task ∈ tally SendWorker.tasks s.sendWorkers :=
      mem_tally.mpr ⟨_, List.mem_of_getElem? holding, by simp [SendWorker.tasks, Hand.tasks]⟩
    have whole : { task.frame with p := s.bytes task } = task.frame := by
      rw [h.intact task (Multiset.mem_add.mpr (.inr mem))]
    rw [← before, line, atWorker_set holding rfl, whole]
    split
    · rename_i here
      simp [line, atWorker_of holding here, SendWorker.waiting, of, ← List.filter_append]
    · rename_i elsewhere
      have there := h.routed w _ holding task List.mem_cons_self
      rw [of_append, of_other (other_key (there ▸ elsewhere))]
      simp [line, of]
  | @release w task taskCh _ done =>
    rw [← before, line, atWorker_set_same done ⟨taskCh, .idle⟩ rfl rfl]
    rfl

theorem Sound.step (h : s.Sound) (move : Step s e s') : s'.Sound where
  owned := h.owned_step move
  intact := h.intact_step move
  routed := h.routed_step move
  ordered := h.ordered_step move

end

section
variable (producers workers : Nat)

theorem init_tasks : (init producers workers).tasks = 0 := by
  have empty : tally Producer.tasks (List.replicate producers .idle) = 0 :=
    tally_eq_zero fun p mem => by rw [List.eq_of_mem_replicate mem]; rfl
  have bare : tally SendWorker.tasks (List.replicate workers ⟨[], .idle⟩) = 0 :=
    tally_eq_zero fun w mem => by rw [List.eq_of_mem_replicate mem]; rfl
  simp [tasks, init, empty, bare]

theorem init_copying : (init producers workers).copying = 0 :=
  tally_eq_zero fun p mem => by rw [List.eq_of_mem_replicate mem]; rfl

theorem init_atWorker (key : String) : (init producers workers).atWorker key = [] := by
  unfold atWorker
  cases found : (init producers workers).sendWorkers[(init producers workers).index key]? with
  | none => rfl
  | some worker => rw [List.eq_of_mem_replicate (List.mem_of_getElem? found)]; rfl

theorem Sound.init : (init producers workers).Sound where
  owned := by
    rw [bufs, init_tasks, init_copying]
    exact le_rfl
  intact task mem := by
    rw [init_tasks] at mem
    cases mem
  routed w worker found task mem := by
    rw [List.eq_of_mem_replicate (List.mem_of_getElem? found)] at mem
    cases mem
  ordered key := by
    rw [line, init_atWorker]
    rfl

end

theorem Sound.of_run {ok : Pipeline → PipelineEvent → Prop} (h : s.Sound)
    (run : Run (Moves next) ok s s') : s'.Sound :=
  run.invariant (fun _ _ _ kept _ move => kept.step (step_of_next move)) h

/-! ## Everything under way can be sent -/

def Settled (s : Pipeline) : Prop :=
  (∀ p ∈ s.producers, p = .idle) ∧ s.sendTaskCh = [] ∧ s.dispatcher = none ∧
    ∀ worker ∈ s.sendWorkers, worker = ⟨[], .idle⟩

end Pipeline

def Producer.frames : Producer → Multiset Frame
  | .idle => 0
  | .copying frame _ => {frame}
  | .sending task => {task.frame}

/-- The steps that the frame of a goroutine has before it. -/
def Producer.distance : Producer → Nat
  | .idle => 0
  | .copying _ _ => 7
  | .sending _ => 6

def Hand.distance : Hand → Nat
  | .idle => 0
  | .holding _ => 2
  | .done _ => 1

def SendWorker.distance (w : SendWorker) : Nat := 3 * w.taskCh.length + w.hand.distance

namespace Pipeline

variable {s s' : Pipeline} {e : PipelineEvent}

def distance (s : Pipeline) : Nat :=
  tally Producer.distance s.producers + 5 * s.sendTaskCh.length + 4 * s.dispatcher.toList.length +
    tally SendWorker.distance s.sendWorkers

theorem Step.closer (h : Step s e s') (settles : e.settles = true)
    (collects : ∀ i, e ≠ .collect i) : s'.distance < s.distance := by
  cases h with
  | crash | reuse | fresh => cases settles
  | @copy j b frame _ copying =>
    have less := tally_set_less (f := Producer.distance) copying (d := 1)
      (x := .sending ⟨b, frame.p.length, frame⟩) rfl
    simp only [distance, ← less]
    omega
  | put _ sending =>
    have less := tally_set_less (f := Producer.distance) sending (d := 6) (x := .idle) rfl
    simp only [distance, ← less, List.length_append, List.length_singleton]
    omega
  | dispatch _ idle waiting =>
    simp only [distance, idle, waiting, Option.toList, List.length_cons, List.length_nil]
    omega
  | @forward task worker _ inHand chosen =>
    have more := tally_set_more (f := SendWorker.distance) chosen (d := 3)
      (x := { worker with taskCh := worker.taskCh ++ [task] })
      (by simp only [SendWorker.distance, List.length_append, List.length_singleton]; omega)
    simp only [distance, more, inHand, Option.toList, List.length_cons, List.length_nil]
    omega
  | @take w task rest _ waiting =>
    have less := tally_set_less (f := SendWorker.distance) waiting (d := 1)
      (x := ⟨rest, .holding task⟩)
      (by simp only [SendWorker.distance, Hand.distance, List.length_cons]; omega)
    simp only [distance, ← less]
    omega
  | @sendPacket w task taskCh _ holding =>
    have less := tally_set_less (f := SendWorker.distance) holding (d := 1)
      (x := ⟨taskCh, .done task⟩) rfl
    simp only [distance, ← less]
    omega
  | @release w task taskCh _ done =>
    have less := tally_set_less (f := SendWorker.distance) done (d := 1)
      (x := ⟨taskCh, .idle⟩) rfl
    simp only [distance, ← less]
    omega
  | collect => exact absurd rfl (collects _)

/-- The frames that were taken up are put on the channel. -/
theorem Step.conserves (h : Step s e s') (settles : e.settles = true) :
    (s'.put : Multiset Frame) + tally Producer.frames s'.producers =
      s.put + tally Producer.frames s.producers := by
  cases h with
  | crash | reuse | fresh => cases settles
  | copy _ copying => exact congrArg (_ + ·) (tally_set_same copying rfl)
  | put _ sending =>
    have less := tally_set_less (f := Producer.frames) sending (d := {_}) (x := .idle)
      (zero_add _).symm
    simp only [← less, ← Multiset.coe_add, Multiset.coe_singleton]
    abel
  | dispatch | forward | take | sendPacket | release | collect => rfl

theorem Step.up (h : Step s e s') (settles : e.settles = true) : s'.crashed = false := by
  cases h with
  | crash | reuse | fresh => cases settles
  | copy up | put up | dispatch up | forward up | take up | sendPacket up | release up
  | collect up => exact up

/-- As long as something is under way, a goroutine can go on with it. -/
theorem exists_next (up : s.crashed = false) (some : 0 < s.sendWorkers.length)
    (busy : ¬ s.Settled) :
    ∃ e, (s.next e).isSome ∧ e.settles = true ∧ ∀ i, e ≠ .collect i := by
  by_cases workers : ∀ worker ∈ s.sendWorkers, worker = ⟨[], .idle⟩
  · cases inHand : s.dispatcher with
    | some task =>
      have inside : s.index task.frame.routingKey < s.sendWorkers.length := Nat.mod_lt _ some
      have chosen := List.getElem?_eq_getElem inside
      rw [workers _ (List.getElem_mem inside)] at chosen
      exact ⟨.forward, by simp [next, up, inHand, chosen, taskChSize], rfl, nofun⟩
    | none =>
      cases channel : s.sendTaskCh with
      | cons task rest => exact ⟨.dispatch, by simp [next, up, inHand, channel], rfl, nofun⟩
      | nil =>
        obtain ⟨p, mem, working⟩ : ∃ p ∈ s.producers, p ≠ .idle := by
          by_contra idle
          push Not at idle
          exact busy ⟨idle, channel, inHand, workers⟩
        obtain ⟨j, found⟩ := List.mem_iff_getElem?.mp mem
        cases p with
        | idle => exact absurd rfl working
        | copying frame b => exact ⟨.copy j, by simp [next, up, found], rfl, nofun⟩
        | sending task =>
          exact ⟨.put j, by simp [next, up, found, channel, sendTaskChSize], rfl, nofun⟩
  · push Not at workers
    obtain ⟨⟨taskCh, hand⟩, mem, working⟩ := workers
    obtain ⟨w, found⟩ := List.mem_iff_getElem?.mp mem
    cases hand with
    | holding task => exact ⟨.sendPacket w, by simp [next, up, found], rfl, nofun⟩
    | done task => exact ⟨.release w, by simp [next, up, found], rfl, nofun⟩
    | idle =>
      cases taskCh with
      | nil => exact absurd rfl working
      | cons task rest => exact ⟨.take w, by simp [next, up, found], rfl, nofun⟩

/-- The send workers catch up with the shards. -/
theorem reaches_settled (up : s.crashed = false) (some : 0 < s.sendWorkers.length) :
    ∃ s', Run (Moves next) (fun _ e => e.settles = true) s s' ∧ s'.Settled ∧
      (s'.put : Multiset Frame) + tally Producer.frames s'.producers =
        s.put + tally Producer.frames s.producers := by
  have reached : ∃ s', Run (Moves next) (fun _ e => e.settles = true) s s' ∧
      (s'.crashed = false ∧ 0 < s'.sendWorkers.length ∧
        (s'.put : Multiset Frame) + tally Producer.frames s'.producers =
          s.put + tally Producer.frames s.producers) ∧ s'.Settled :=
    Run.reach distance (fun t ⟨up, some, same⟩ busy => by
      obtain ⟨e, able, settles, collects⟩ := exists_next up some busy
      obtain ⟨t', move⟩ := Option.isSome_iff_exists.mp able
      have step := step_of_next move
      exact ⟨e, t', settles, move, ⟨step.up settles, step.workers_length ▸ some,
        (step.conserves settles).trans same⟩, step.closer settles collects⟩)
      ⟨up, some, rfl⟩
  obtain ⟨s', run, ⟨-, -, same⟩, settled⟩ := reached
  exact ⟨s', run, settled, same⟩

theorem Settled.line_eq (h : s.Settled) (key : String) : s.line key = [] := by
  have idle : s.atWorker key = [] := by
    unfold atWorker
    cases found : s.sendWorkers[s.index key]? with
    | none => rfl
    | some worker => rw [h.2.2.2 worker (List.mem_of_getElem? found)]; rfl
  rw [line, idle, h.2.1, h.2.2.1]
  rfl

theorem Settled.frames_eq (h : s.Settled) : tally Producer.frames s.producers = 0 :=
  tally_eq_zero fun p mem => by rw [h.1 p mem]; rfl

/-- However the goroutines take turns, `SendPacket` is called with the frames of a routing key
in the order in which they were put on the channel, each once and with its own bytes, and
nothing keeps the send workers from sending all frames that the shards have taken up. -/
theorem frames_in_order {producers workers : Nat} (some : 0 < workers)
    (run : Run (Moves next) (fun _ _ => True) (init producers workers) s) :
    (∀ key, of key s.sent <+: of key s.put) ∧ (s.crashed = false →
      ∃ s', Run (Moves next) (fun _ e => e.settles = true) s s' ∧ s'.Settled ∧
        (∀ key, of key s'.sent = of key s'.put) ∧
        (s'.put : Multiset Frame) = s.put + tally Producer.frames s.producers) := by
  have sound := (Sound.init producers workers).of_run run
  have length : s.sendWorkers.length = workers := by
    refine run.invariant (P := fun s => s.sendWorkers.length = workers)
      (fun _ _ _ kept _ move => (step_of_next move).workers_length.trans kept) ?_
    exact List.length_replicate
  refine ⟨fun key => ⟨_, sound.ordered key⟩, fun up => ?_⟩
  obtain ⟨s', settling, settled, same⟩ := reaches_settled up (length ▸ some)
  refine ⟨s', settling, settled, fun key => ?_, ?_⟩
  · simpa [settled.line_eq, of] using (sound.of_run settling).ordered key
  · simpa [settled.frames_eq] using same

/-- Two frames of one routing key, the second in the buffer of the first, and one of another
that has not been copied yet. -/
theorem frames_in_order_reuse : 0 < 2 ∧ ∃ s,
    Run (Moves next) (fun _ _ => True) (init 2 2) s ∧
    (s.sent = [⟨[1, 2], "a", some 7⟩, ⟨[3], "a", some 7⟩] ∧
      s.producers = [.idle, .copying ⟨[4], "b", some 7⟩ 0] ∧ s.crashed = false) ∧
    ∃ s', Run (Moves next) (fun _ e => e.settles = true) s s' ∧ s'.Settled ∧
      (∀ key, of key s'.sent = of key s'.put) ∧
      (s'.put : Multiset Frame) = s.put + tally Producer.frames s.producers := by
  have reached : ∃ s, Run (Moves next) (fun _ _ => True) (init 2 2) s ∧
      (s.sent = [⟨[1, 2], "a", some 7⟩, ⟨[3], "a", some 7⟩] ∧
        s.producers = [.idle, .copying ⟨[4], "b", some 7⟩ 0] ∧ s.crashed = false) :=
    Run.exists_of_checked
      [.get 0 ⟨[1, 2], "a", some 7⟩ 0, .copy 0, .put 0, .dispatch, .forward, .take 0,
        .sendPacket 0, .release 0, .get 0 ⟨[3], "a", some 7⟩ 0, .copy 0, .put 0, .dispatch,
        .forward, .take 0, .sendPacket 0, .release 0, .get 1 ⟨[4], "b", some 7⟩ 0]
      (by decide +kernel)
  obtain ⟨s, run, holds⟩ := reached
  exact ⟨by decide, s, run, holds, (frames_in_order (by decide) run).2 holds.2.2⟩

end Pipeline

end SkyAccel.Aggregator
