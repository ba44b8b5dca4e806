import SkyAccel.Lib.Run
import SkyAccel.Lib.Tally

/-!
# Workers on a channel

A channel and the goroutines that range over it. What is sent is taken in the order in which
it was sent, by one worker each (`Sound`), and whatever the workers are doing, they can go on
until nothing is left to do (`exists_work`) and, once the channel is closed, until all of them
have ended (`exists_leave`).
-/

namespace SkyAccel

/-- A goroutine that ranges over a channel. -/
inductive Worker (α : Type)
  | waiting
  | busy (a : α)
  | ended
  deriving DecidableEq

/-- What the goroutine works on. -/
def Worker.held {α : Type} : Worker α → Multiset α
  | .busy a => {a}
  | _ => 0

theorem Worker.card_held {α : Type} (w : Worker α) : w.held.card ≤ 1 := by
  cases w <;> simp [Worker.held]

/-- How far the goroutine is from its end. -/
def Worker.rank {α : Type} : Worker α → Nat
  | .waiting => 1
  | .busy _ => 2
  | .ended => 0

/-- A channel of capacity `cap`, and what was sent, taken and finished so far, in order. -/
structure WorkQueue (α : Type) where
  cap : Nat
  queue : List α
  closed : Bool
  workers : List (Worker α)
  sent : List α
  taken : List α
  finished : List α

namespace WorkQueue

inductive Op (α : Type)
  | send (a : α)
  | hand (i : Nat) (a : α)
  | close
  | take (i : Nat)
  | finish (i : Nat)
  | leave (i : Nat)

variable {α : Type}

def init (α : Type) (cap workers : Nat) : WorkQueue α :=
  ⟨cap, [], false, List.replicate workers .waiting, [], [], []⟩

/-- Sending on a full channel waits, and on a closed one it panics. What is sent on an empty
channel can be handed to a worker that waits, which is the only way if there is no buffer. -/
def next (q : WorkQueue α) : Op α → Option (WorkQueue α)
  | .send a =>
    if q.closed = false ∧ q.queue.length < q.cap then
      some { q with queue := q.queue ++ [a], sent := q.sent ++ [a] }
    else none
  | .hand i a =>
    match q.workers[i]?, q.queue with
    | some .waiting, [] =>
      if q.closed then none
      else some { q with
        workers := q.workers.set i (.busy a)
        sent := q.sent ++ [a]
        taken := q.taken ++ [a] }
    | _, _ => none
  | .close => if q.closed then none else some { q with closed := true }
  | .take i =>
    match q.workers[i]?, q.queue with
    | some .waiting, a :: rest =>
      some { q with
        queue := rest
        workers := q.workers.set i (.busy a)
        taken := q.taken ++ [a] }
    | _, _ => none
  | .finish i =>
    match q.workers[i]? with
    | some (.busy a) =>
      some { q with workers := q.workers.set i .waiting, finished := q.finished ++ [a] }
    | _ => none
  | .leave i =>
    match q.workers[i]?, q.queue with
    | some .waiting, [] =>
      if q.closed then some { q with workers := q.workers.set i .ended } else none
    | _, _ => none

/-- The steps, with what they need. -/
inductive Step (q : WorkQueue α) : Op α → WorkQueue α → Prop
  | send (a : α) : q.closed = false → q.queue.length < q.cap →
      Step q (.send a) { q with queue := q.queue ++ [a], sent := q.sent ++ [a] }
  | hand {i : Nat} (a : α) : q.workers[i]? = some .waiting → q.queue = [] → q.closed = false →
      Step q (.hand i a) { q with
        workers := q.workers.set i (.busy a)
        sent := q.sent ++ [a]
        taken := q.taken ++ [a] }
  | close : q.closed = false → Step q .close { q with closed := true }
  | take {i : Nat} {a : α} {rest : List α} : q.workers[i]? = some .waiting → q.queue = a :: rest →
      Step q (.take i) { q with
        queue := rest
        workers := q.workers.set i (.busy a)
        taken := q.taken ++ [a] }
  | finish {i : Nat} {a : α} : q.workers[i]? = some (.busy a) →
      Step q (.finish i) { q with
        workers := q.workers.set i .waiting
        finished := q.finished ++ [a] }
  | leave {i : Nat} : q.workers[i]? = some .waiting → q.queue = [] → q.closed = true →
      Step q (.leave i) { q with workers := q.workers.set i .ended }

variable {q q' : WorkQueue α} {op : Op α}

theorem step_of_next (h : q.next op = some q') : Step q op q' := by
  cases op with
  | send a =>
    simp only [next] at h
    split at h
    · rename_i room
      obtain rfl := Option.some.inj h
      exact .send a room.1 room.2
    · cases h
  | hand i a =>
    simp only [next] at h
    split at h
    · rename_i waiting empty
      split at h
      · cases h
      · rename_i open_
        obtain rfl := Option.some.inj h
        exact .hand a waiting empty (by simpa using open_)
    · cases h
  | close =>
    simp only [next] at h
    split at h
    · cases h
    · rename_i open_
      obtain rfl := Option.some.inj h
      exact .close (by simpa using open_)
  | take i =>
    simp only [next] at h
    split at h
    · rename_i waiting first
      obtain rfl := Option.some.inj h
      exact .take waiting first
    · cases h
  | finish i =>
    simp only [next] at h
    split at h
    · rename_i busy
      obtain rfl := Option.some.inj h
      exact .finish busy
    · cases h
  | leave i =>
    simp only [next] at h
    split at h
    · rename_i waiting empty
      split at h
      · rename_i closed
        obtain rfl := Option.some.inj h
        exact .leave waiting empty closed
      · cases h
    · cases h

theorem next_of_step (h : Step q op q') : q.next op = some q' := by
  cases h with
  | send a open_ room => simp [next, open_, room]
  | hand a waiting empty open_ => simp [next, waiting, empty, open_]
  | close open_ => simp [next, open_]
  | take waiting first => simp [next, waiting, first]
  | finish busy => simp [next, busy]
  | leave waiting empty closed => simp [next, waiting, empty, closed]

/-! ## What holds of the channel -/

/-- What was sent was taken in that order or waits, what was taken is finished or worked on,
and workers end when nothing can come any more. -/
structure Sound (q : WorkQueue α) : Prop where
  ordered : q.sent = q.taken ++ q.queue
  once : (q.taken : Multiset α) = q.finished + tally Worker.held q.workers
  room : q.queue.length ≤ q.cap
  ended : .ended ∈ q.workers → q.closed = true ∧ q.queue = []

theorem Sound.init (cap workers : Nat) : Sound (init α cap workers) where
  ordered := rfl
  once := by
    have none : tally Worker.held (List.replicate workers (.waiting : Worker α)) = 0 :=
      tally_eq_zero fun w mem => by rw [List.eq_of_mem_replicate mem]; rfl
    simp [WorkQueue.init, none]
  room := Nat.zero_le _
  ended mem := by simpa [WorkQueue.init] using List.eq_of_mem_replicate mem

theorem mem_set_ended {l : List (Worker α)} {i : Nat} {w : Worker α} (other : w ≠ .ended)
    (mem : .ended ∈ l.set i w) : .ended ∈ l := by
  obtain mem | same := List.mem_or_eq_of_mem_set mem
  · exact mem
  · exact absurd same.symm other

theorem Sound.step (h : Sound q) (move : Step q op q') : Sound q' := by
  cases move with
  | send a open_ room =>
    refine ⟨by simp [h.ordered], h.once, by simpa using Nat.succ_le_of_lt room, fun mem => ?_⟩
    simp [(h.ended mem).1] at open_
  | @hand i a waiting empty open_ =>
    refine ⟨by simp [h.ordered, empty], ?_, h.room, fun mem => ?_⟩
    · have more := tally_set_more (f := Worker.held) waiting (x := .busy a) (d := {a}) (by
        simp [Worker.held])
      simp only [more, ← Multiset.coe_add, h.once, Multiset.coe_singleton, add_assoc]
    · have closed := (h.ended (mem_set_ended (by simp) mem)).1
      simp [closed] at open_
  | close open_ => exact ⟨h.ordered, h.once, h.room, fun mem => ⟨rfl, (h.ended mem).2⟩⟩
  | @take i a rest waiting first =>
    refine ⟨by simp [h.ordered, first], ?_, ?_, fun mem => ?_⟩
    · have more := tally_set_more (f := Worker.held) waiting (x := .busy a) (d := {a}) (by
        simp [Worker.held])
      simp only [more, ← Multiset.coe_add, h.once, Multiset.coe_singleton, add_assoc]
    · have room := h.room
      simp only [first, List.length_cons] at room
      exact Nat.le_of_succ_le room
    · have empty := (h.ended (mem_set_ended (by simp) mem)).2
      simp [first] at empty
  | @finish i a busy =>
    refine ⟨h.ordered, ?_, h.room, fun mem => h.ended (mem_set_ended (by simp) mem)⟩
    have less := tally_set_less (f := Worker.held) busy (x := .waiting) (d := {a}) (by
      simp [Worker.held])
    rw [h.once, ← less, ← Multiset.coe_add, Multiset.coe_singleton]
    abel
  | @leave i waiting empty closed =>
    have same := tally_set_same (f := Worker.held) waiting (x := .ended) rfl
    exact ⟨h.ordered, by simp only [same, h.once], h.room, fun _ => ⟨closed, empty⟩⟩

theorem workers_length_step (move : Step q op q') : q'.workers.length = q.workers.length := by
  cases move <;> simp

theorem cap_step (move : Step q op q') : q'.cap = q.cap := by
  cases move <;> rfl

/-! ## Working on -/

/-- Nothing waits and nothing is worked on. -/
structure Idle (q : WorkQueue α) : Prop where
  queue : q.queue = []
  workers : ∀ w ∈ q.workers, w.held = 0

/-- What is sent is finished once the workers are idle. -/
theorem Sound.finished_perm (h : Sound q) (idle : q.Idle) :
    (q.finished : Multiset α) = q.sent := by
  have once := h.once
  rw [tally_eq_zero idle.workers, add_zero] at once
  rw [h.ordered, idle.queue, List.append_nil, once]

/-- How far the workers are from the end. -/
def rank (q : WorkQueue α) : Nat := 2 * q.queue.length + tally Worker.rank q.workers

/-- The steps of the workers themselves. -/
def Op.works : Op α → Bool
  | .take _ | .finish _ => true
  | _ => false

theorem rank_take {i : Nat} {a : α} {rest : List α} (waiting : q.workers[i]? = some .waiting)
    (first : q.queue = a :: rest) :
    rank { q with
      queue := rest
      workers := q.workers.set i (.busy a)
      taken := q.taken ++ [a] } < q.rank := by
  have more := tally_set_more (f := Worker.rank) waiting (x := .busy a) (d := 1) rfl
  simp only [rank, more, first, List.length_cons]
  omega

theorem rank_finish {i : Nat} {a : α} (busy : q.workers[i]? = some (.busy a)) :
    rank { q with
      workers := q.workers.set i .waiting
      finished := q.finished ++ [a] } < q.rank := by
  have less := tally_set_less (f := Worker.rank) busy (x := .waiting) (d := 1) rfl
  simp only [rank]
  omega

/-- As long as something waits or is worked on, one of the workers can go on. -/
theorem Sound.exists_work (h : Sound q) (some : q.workers ≠ []) (busy : ¬ q.Idle) :
    ∃ op q', op.works = true ∧ Step q op q' ∧ rank q' < rank q := by
  by_cases working : ∃ w ∈ q.workers, w.held ≠ 0
  · obtain ⟨w, mem, holds⟩ := working
    obtain ⟨i, there⟩ := List.mem_iff_getElem?.mp mem
    cases w with
    | busy a => exact ⟨.finish i, _, rfl, .finish there, rank_finish there⟩
    | waiting | ended => exact absurd rfl holds
  · push Not at working
    cases waiting : q.queue with
    | nil => exact absurd ⟨waiting, working⟩ busy
    | cons a rest =>
      obtain ⟨w, mem⟩ := List.exists_mem_of_ne_nil _ some
      obtain ⟨i, there⟩ := List.mem_iff_getElem?.mp mem
      cases w with
      | waiting => exact ⟨.take i, _, rfl, .take there waiting, rank_take there waiting⟩
      | busy b => exact absurd (working _ mem) (by simp [Worker.held])
      | ended => exact absurd (h.ended mem).2 (by simp [waiting])

/-- What is sent to idle workers can be handed to one of them. -/
theorem Sound.exists_hand (h : Sound q) (some : q.workers ≠ []) (idle : q.Idle)
    (open_ : q.closed = false) (a : α) : ∃ i q', Step q (.hand i a) q' ∧ rank q' = rank q + 1 := by
  obtain ⟨w, mem⟩ := List.exists_mem_of_ne_nil _ some
  obtain ⟨i, there⟩ := List.mem_iff_getElem?.mp mem
  cases w with
  | waiting =>
    refine ⟨i, _, .hand a there idle.queue open_, ?_⟩
    have more := tally_set_more (f := Worker.rank) there (x := .busy a) (d := 1) rfl
    simp only [rank, more, add_assoc]
  | busy b => exact absurd (idle.workers _ mem) (by simp [Worker.held])
  | ended => exact absurd (h.ended mem).1 (by simp [open_])

/-- Once the channel is closed and the workers are idle, they end. -/
theorem exists_leave (idle : q.Idle) (closed : q.closed = true)
    (left : ¬ ∀ w ∈ q.workers, w = .ended) :
    ∃ i q', Step q (.leave i) q' ∧ rank q' < rank q := by
  push Not at left
  obtain ⟨w, mem, on⟩ := left
  obtain ⟨i, there⟩ := List.mem_iff_getElem?.mp mem
  cases w with
  | waiting =>
    refine ⟨i, _, .leave there idle.queue closed, ?_⟩
    have less := tally_set_less (f := Worker.rank) there (x := .ended) (d := 1) rfl
    simp only [rank]
    omega
  | busy a => exact absurd (idle.workers _ mem) (by simp [Worker.held])
  | ended => exact absurd rfl on

end WorkQueue

end SkyAccel
