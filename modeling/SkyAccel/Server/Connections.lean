import SkyAccel.Lib.WorkQueue
import Mathlib.Data.Multiset.Range

/-!
# The connections of the TCP listeners

Each listener has a loop, `StartServerRun`, that accepts connections and hands them on. A short
one goes to the workers of `InitWorkerPool` over `connChan`, a long one gets a goroutine of its
own and a token of `longConnSem`, and one for which there is no room is closed at once. Every
connection is in one place until it is closed, so there are never more open ones than places
(`bounded_and_closed`), and when the loops hand on what they hold and the handlers return,
nothing stays open.

What the handlers do is left out but for the close at their end, and so is a panic in one of
them, which ends the process. A loop that is started later is one that has not accepted yet.
-/

namespace SkyAccel.Server

/-- `connTask`, with what a worker reads of it to choose the handler, and the loop it comes
from. -/
structure ConnTask where
  conn : Nat
  keepAlive : Bool
  loop : Nat
  deriving DecidableEq

/-- The loop of `StartServerRun` for one listener: whether its server keeps connections alive,
and the connection it has accepted and not handed on yet. -/
structure AcceptLoop where
  keepAlive : Bool
  conn : Option Nat
  deriving DecidableEq

/-- The goroutine of a long connection, whose handler has returned or not. -/
structure LongConn where
  conn : Nat
  returned : Bool
  deriving DecidableEq

def AcceptLoop.held (l : AcceptLoop) : Multiset Nat := l.conn.elim 0 fun c => {c}

/-- The connection of the goroutine, until its handler returns. -/
def LongConn.held (l : LongConn) : Multiset Nat := if l.returned then 0 else {l.conn}

/-- How far what the loop holds is from its end, at most two steps after it was handed on. -/
def AcceptLoop.rank (l : AcceptLoop) : Nat := l.conn.elim 0 fun _ => 3

/-- How far the goroutine is from its end. -/
def LongConn.rank (l : LongConn) : Nat := if l.returned then 1 else 2

/-- `long` are the goroutines that hold a token of `longConnSem`. Connections are numbered in
the order in which they are accepted. -/
structure Connections where
  loops : List AcceptLoop
  connChan : WorkQueue ConnTask
  longConnLimit : Nat
  long : List LongConn
  accepted : Nat
  closed : List Nat

def tcpWorkerCount : Nat := 1000

def maxPendingConns : Nat := 100000

def longConnLimit : Nat := 512

/-- How many workers `InitWorkerPool` starts. -/
def initWorkerPool (configured : Int) : Nat :=
  if configured ≤ 0 then tcpWorkerCount else configured.toNat

theorem initWorkerPool_pos (configured : Int) : 0 < initWorkerPool configured := by
  unfold initWorkerPool
  split
  · decide
  · omega

inductive ConnectionEvent
  | accept (i : Nat)
  | dispatch (i : Nat)
  | take (i : Nat)
  | handled (i : Nat)
  | returned (k : Nat)
  | release (k : Nat)

/-- Nothing new is accepted. -/
def ConnectionEvent.handles : ConnectionEvent → Bool
  | .accept _ => false
  | _ => true

namespace Connections

/-- One loop for each server in `servers`, which keeps connections alive or not. -/
def init (servers : List Bool) (limit pending workers : Nat) : Connections :=
  ⟨servers.map fun keepAlive => ⟨keepAlive, none⟩, .init ConnTask pending workers, limit, [], 0, []⟩

/-- Closing a connection again does nothing. -/
def close (s : Connections) (c : Nat) : Connections :=
  if c ∈ s.closed then s else { s with closed := s.closed ++ [c] }

/-- The body of the loop of `StartServerRun` after `Accept`: the `select` with its default. -/
def dispatch (s : Connections) (keepAlive : Bool) (i c : Nat) : Connections :=
  if keepAlive then
    if s.long.length < s.longConnLimit then { s with long := s.long ++ [⟨c, false⟩] }
    else s.close c
  else
    match s.connChan.next (.send ⟨c, false, i⟩) with
    | some q => { s with connChan := q }
    | none => s.close c

/-- Both handlers close their connection when they return, and so does the goroutine of a long
connection after it has given its token back. -/
def next (s : Connections) : ConnectionEvent → Option Connections
  | .accept i =>
    match s.loops[i]? with
    | some ⟨keepAlive, none⟩ =>
      some { s with
        loops := s.loops.set i ⟨keepAlive, some s.accepted⟩
        accepted := s.accepted + 1 }
    | _ => none
  | .dispatch i =>
    match s.loops[i]? with
    | some ⟨keepAlive, some c⟩ =>
      some (dispatch { s with loops := s.loops.set i ⟨keepAlive, none⟩ } keepAlive i c)
    | _ => none
  | .take i => (s.connChan.next (.take i)).map fun q => { s with connChan := q }
  | .handled i =>
    match s.connChan.workers[i]? with
    | some (.busy task) =>
      (s.connChan.next (.finish i)).map fun q => close { s with connChan := q } task.conn
    | _ => none
  | .returned k =>
    match s.long[k]? with
    | some ⟨c, false⟩ => some (close { s with long := s.long.set k ⟨c, true⟩ } c)
    | _ => none
  | .release k =>
    match s.long[k]? with
    | some ⟨c, true⟩ => some (close { s with long := s.long.eraseIdx k } c)
    | _ => none

/-- What `next` does, with the conditions it is done under. -/
inductive Step (s : Connections) : ConnectionEvent → Connections → Prop
  | accept {i : Nat} {keepAlive : Bool} : s.loops[i]? = some ⟨keepAlive, none⟩ →
      Step s (.accept i) { s with
        loops := s.loops.set i ⟨keepAlive, some s.accepted⟩
        accepted := s.accepted + 1 }
  | dispatch {i c : Nat} {keepAlive : Bool} : s.loops[i]? = some ⟨keepAlive, some c⟩ →
      Step s (.dispatch i)
        (dispatch { s with loops := s.loops.set i ⟨keepAlive, none⟩ } keepAlive i c)
  | take {i : Nat} {q : WorkQueue ConnTask} : s.connChan.Step (.take i) q →
      Step s (.take i) { s with connChan := q }
  | handled {i : Nat} {task : ConnTask} {q : WorkQueue ConnTask} :
      s.connChan.workers[i]? = some (.busy task) → s.connChan.Step (.finish i) q →
      Step s (.handled i) (close { s with connChan := q } task.conn)
  | returned {k c : Nat} : s.long[k]? = some ⟨c, false⟩ →
      Step s (.returned k) (close { s with long := s.long.set k ⟨c, true⟩ } c)
  | release {k c : Nat} : s.long[k]? = some ⟨c, true⟩ →
      Step s (.release k) (close { s with long := s.long.eraseIdx k } c)

theorem step_of_next {s s' : Connections} {e : ConnectionEvent} (move : s.next e = some s') :
    s.Step e s' := by
  cases e with
  | accept i =>
    simp only [next] at move
    split at move
    · rename_i keepAlive free
      obtain rfl := Option.some.inj move
      exact .accept free
    · cases move
  | dispatch i =>
    simp only [next] at move
    split at move
    · rename_i keepAlive c holds
      obtain rfl := Option.some.inj move
      exact .dispatch holds
    · cases move
  | take i =>
    obtain ⟨q, took, rfl⟩ := Option.map_eq_some_iff.mp move
    exact .take (WorkQueue.step_of_next took)
  | handled i =>
    simp only [next] at move
    split at move
    · rename_i task busy
      obtain ⟨q, done, rfl⟩ := Option.map_eq_some_iff.mp move
      exact .handled busy (WorkQueue.step_of_next done)
    · cases move
  | returned k =>
    simp only [next] at move
    split at move
    · rename_i c running
      obtain rfl := Option.some.inj move
      exact .returned running
    · cases move
  | release k =>
    simp only [next] at move
    split at move
    · rename_i c back
      obtain rfl := Option.some.inj move
      exact .release back
    · cases move

/-! ## Where the connections are -/

/-- Those that a loop holds, that wait for a worker, have one or have a goroutine of their own. -/
def places (s : Connections) : Multiset Nat :=
  tally AcceptLoop.held s.loops + (s.connChan.queue.map ConnTask.conn : List Nat) +
    (tally Worker.held s.connChan.workers).map ConnTask.conn + tally LongConn.held s.long

/-- Every connection but those in `loose` is in one place or closed. -/
structure Placed (loose : Multiset Nat) (s : Connections) : Prop where
  chan : s.connChan.Sound
  running : s.connChan.closed = false
  balance : s.places + s.closed + loose = Multiset.range s.accepted
  tokens : s.long.length ≤ s.longConnLimit
  returned : ∀ l ∈ s.long, l.returned = true → l.conn ∈ s.closed
  short : ∀ task ∈ s.connChan.sent, task.keepAlive = false ∧ task.conn < s.accepted
  ordered : s.connChan.sent.Pairwise fun a b => a.loop = b.loop → a.conn < b.conn
  behind : ∀ task ∈ s.connChan.sent, ∀ l c, s.loops[task.loop]? = some l → l.conn = some c →
    task.conn < c

variable {s s' : Connections}

theorem Placed.init (servers : List Bool) (limit pending workers : Nat) :
    Placed 0 (init servers limit pending workers) where
  chan := .init pending workers
  running := rfl
  balance := by
    have none : tally Worker.held (List.replicate workers (.waiting : Worker ConnTask)) = 0 :=
      tally_eq_zero fun w mem => by rw [List.eq_of_mem_replicate mem]; rfl
    have free : tally AcceptLoop.held
        (Connections.init servers limit pending workers).loops = 0 := by
      refine tally_eq_zero fun l mem => ?_
      obtain ⟨keepAlive, -, rfl⟩ := List.mem_map.mp mem
      rfl
    rw [places, free]
    simp [Connections.init, WorkQueue.init, none]
  tokens := Nat.zero_le _
  returned := by simp [Connections.init]
  short := by simp [Connections.init, WorkQueue.init]
  ordered := List.Pairwise.nil
  behind := by simp [Connections.init, WorkQueue.init]

/-- A connection that is not closed, wherever it is. -/
theorem Placed.not_closed {loose : Multiset Nat} (h : Placed loose s) {c : Nat}
    (mem : c ∈ s.places + loose) : c ∉ s.closed := by
  have once := Multiset.nodup_range s.accepted
  rw [← h.balance, add_right_comm] at once
  have apart := (Multiset.nodup_add.mp once).2.2
  exact fun closed => Multiset.disjoint_left.mp apart mem (Multiset.mem_coe.mpr closed)

theorem close_of_notMem {c : Nat} (open_ : c ∉ s.closed) :
    s.close c = { s with closed := s.closed ++ [c] } := if_neg open_

theorem close_of_mem {c : Nat} (closed : c ∈ s.closed) : s.close c = s := if_pos closed

/-! ## Steps -/

theorem Placed.accept (h : Placed 0 s) {i : Nat} {keepAlive : Bool}
    (free : s.loops[i]? = some ⟨keepAlive, none⟩) :
    Placed 0 { s with
      loops := s.loops.set i ⟨keepAlive, some s.accepted⟩
      accepted := s.accepted + 1 } := by
  have more := tally_set_more (f := AcceptLoop.held) free (x := ⟨keepAlive, some s.accepted⟩)
    (d := {s.accepted}) (by simp [AcceptLoop.held])
  refine ⟨h.chan, h.running, ?_, h.tokens, h.returned,
    fun task mem => ⟨(h.short task mem).1, Nat.lt_succ_of_lt (h.short task mem).2⟩, h.ordered,
    fun task mem l c there holds => ?_⟩
  · rw [Multiset.range_succ, ← h.balance, ← Multiset.singleton_add]
    simp only [places, more]
    abel
  · by_cases same : i = task.loop
    · subst same
      rw [List.getElem?_set_self (List.getElem?_eq_some_iff.mp free).1] at there
      obtain rfl := Option.some.inj there
      obtain rfl := Option.some.inj holds
      exact (h.short task mem).2
    · rw [List.getElem?_set_ne same] at there
      exact h.behind task mem l c there holds

/-- Between the two halves of a dispatch: the loop holds its connection no longer, and it is in
no other place yet. -/
structure Handing (i c : Nat) (s : Connections) : Prop extends Placed {c} s where
  last : ∀ task ∈ s.connChan.sent, task.loop = i → task.conn < c
  free : ∀ l, s.loops[i]? = some l → l.conn = none

theorem Placed.handing (h : Placed 0 s) {i c : Nat} {keepAlive : Bool}
    (holds : s.loops[i]? = some ⟨keepAlive, some c⟩) :
    Handing i c { s with loops := s.loops.set i ⟨keepAlive, none⟩ } := by
  have less := tally_set_less (f := AcceptLoop.held) holds (x := ⟨keepAlive, none⟩) (d := {c})
    (by simp [AcceptLoop.held])
  refine ⟨⟨h.chan, h.running, ?_, h.tokens, h.returned, h.short, h.ordered,
    fun task mem l d there held => ?_⟩, fun task mem own => ?_, fun l there => ?_⟩
  · rw [← h.balance]
    simp only [places, ← less]
    abel
  · by_cases same : i = task.loop
    · subst same
      rw [List.getElem?_set_self (List.getElem?_eq_some_iff.mp holds).1] at there
      obtain rfl := Option.some.inj there
      cases held
    · rw [List.getElem?_set_ne same] at there
      exact h.behind task mem l d there held
  · exact h.behind task mem _ c (own ▸ holds) rfl
  · rw [List.getElem?_set_self (List.getElem?_eq_some_iff.mp holds).1] at there
    obtain rfl := Option.some.inj there
    rfl

theorem Handing.lt {i c : Nat} (h : Handing i c s) : c < s.accepted := by
  have mem : c ∈ s.places + s.closed + {c} := by simp
  rw [h.balance] at mem
  exact Multiset.mem_range.mp mem

theorem Handing.refuse {i c : Nat} (h : Handing i c s) : Placed 0 (s.close c) := by
  rw [close_of_notMem (h.not_closed (by simp))]
  refine ⟨h.chan, h.running, ?_, h.tokens, fun l mem back => ?_, h.short, h.ordered, h.behind⟩
  · rw [← h.balance]
    simp only [places, ← Multiset.coe_add, Multiset.coe_singleton, add_assoc, add_zero]
  · exact List.mem_append_left _ (h.returned l mem back)

theorem Handing.long {i c : Nat} (h : Handing i c s) (room : s.long.length < s.longConnLimit) :
    Placed 0 { s with long := s.long ++ [⟨c, false⟩] } := by
  refine ⟨h.chan, h.running, ?_, ?_, fun l mem back => ?_, h.short, h.ordered, h.behind⟩
  · rw [← h.balance]
    simp only [places, tally_append, tally_cons, tally_nil, LongConn.held]
    simp only [Bool.false_eq_true, if_false, add_zero]
    abel
  · simpa using Nat.succ_le_of_lt room
  · obtain mem | new := List.mem_append.mp mem
    · exact h.returned l mem back
    · simp [List.mem_singleton.mp new] at back

theorem Handing.send {i c : Nat} (h : Handing i c s) {q : WorkQueue ConnTask}
    (sent : s.connChan.Step (.send ⟨c, false, i⟩) q) : Placed 0 { s with connChan := q } := by
  have sound := h.chan.step sent
  cases sent with
  | send _ open_ room =>
    refine ⟨sound, open_, ?_, h.tokens, h.returned, fun task mem => ?_, ?_,
      fun task mem l d there held => ?_⟩
    · rw [← h.balance]
      simp only [places, List.map_append, List.map_cons, List.map_nil, ← Multiset.coe_add,
        Multiset.coe_singleton]
      abel
    · obtain mem | new := List.mem_append.mp mem
      · exact h.short task mem
      · rw [List.mem_singleton.mp new]
        exact ⟨rfl, h.lt⟩
    · refine List.pairwise_append.mpr
        ⟨h.ordered, List.pairwise_singleton _ _, fun task mem b last own => ?_⟩
      rw [List.mem_singleton.mp last] at own ⊢
      exact h.last task mem own
    · obtain mem | new := List.mem_append.mp mem
      · exact h.behind task mem l d there held
      · rw [List.mem_singleton.mp new] at there
        rw [h.free l there] at held
        cases held

theorem Handing.dispatch {i c : Nat} (h : Handing i c s) (keepAlive : Bool) :
    Placed 0 (s.dispatch keepAlive i c) := by
  simp only [Connections.dispatch]
  split
  · split
    · rename_i room
      exact h.long room
    · exact h.refuse
  · split
    · rename_i q sent
      exact h.send (WorkQueue.step_of_next sent)
    · exact h.refuse

/-- What is closed leaves its place. -/
theorem Placed.leave (h : Placed 0 s) {c : Nat} (chan : s'.connChan.Sound)
    (running : s'.connChan.closed = false) (left : s'.places + {c} = s.places)
    (loops : s'.loops = s.loops) (closed : s'.closed = s.closed)
    (accepted : s'.accepted = s.accepted) (tokens : s'.long.length ≤ s'.longConnLimit)
    (returned : ∀ l ∈ s'.long, l.returned = true → l.conn = c ∨ l.conn ∈ s.closed)
    (sent : s'.connChan.sent = s.connChan.sent) : Placed 0 (s'.close c) := by
  have open_ : c ∉ s.closed := h.not_closed (by simp [← left])
  rw [close_of_notMem (closed ▸ open_)]
  refine ⟨chan, running, ?_, tokens, fun l mem back => ?_, by rw [sent, accepted]; exact h.short,
    by rw [sent]; exact h.ordered, by rw [sent, loops]; exact h.behind⟩
  · rw [accepted, ← h.balance, ← left, ← Multiset.coe_add, closed, Multiset.coe_singleton]
    simp only [places]
    abel
  · rw [closed]
    obtain own | other := returned l mem back
    · simp [own]
    · exact List.mem_append_left _ other

theorem Placed.step (h : Placed 0 s) {e : ConnectionEvent} (move : s.Step e s') :
    Placed 0 s' := by
  cases move with
  | accept free => exact h.accept free
  | dispatch holds => exact (h.handing holds).dispatch _
  | take took =>
    have sound := h.chan.step took
    cases took with
    | @take _ task rest waiting first =>
      refine ⟨sound, h.running, ?_, h.tokens, h.returned, h.short, h.ordered, h.behind⟩
      have more := tally_set_more (f := Worker.held) waiting (x := .busy task) (d := {task}) (by
        simp [Worker.held])
      rw [← h.balance]
      simp only [places, more, first, List.map_cons, ← Multiset.cons_coe, Multiset.map_add,
        Multiset.map_singleton, ← Multiset.singleton_add]
      abel
  | @handled i task q busy done =>
    have sound := h.chan.step done
    cases done with
    | @finish _ task' busy' =>
      obtain rfl : task = task' := by simpa using busy.symm.trans busy'
      have less := tally_set_less (f := Worker.held) busy (x := .waiting) (d := {task}) (by
        simp [Worker.held])
      refine h.leave sound h.running ?_ rfl rfl rfl h.tokens
        (fun l mem back => .inr (h.returned l mem back)) rfl
      simp only [places, ← less, Multiset.map_add, Multiset.map_singleton]
      abel
  | @returned k c running =>
    have less := tally_set_less (f := LongConn.held) running (x := ⟨c, true⟩) (d := {c}) (by
      simp [LongConn.held])
    refine h.leave h.chan h.running ?_ rfl rfl rfl (by simpa using h.tokens)
      (fun l mem back => ?_) rfl
    · simp only [places, ← less]
      abel
    · obtain mem | rfl := List.mem_or_eq_of_mem_set mem
      · exact .inr (h.returned l mem back)
      · exact .inl rfl
  | @release k c back =>
    have closed : c ∈ s.closed := h.returned _ (List.mem_of_getElem? back) rfl
    have same := tally_eraseIdx (f := LongConn.held) back
    simp only [LongConn.held, if_true, add_zero] at same
    rw [close_of_mem (s := { s with long := s.long.eraseIdx k }) closed]
    refine ⟨h.chan, h.running, ?_, (List.length_eraseIdx_le _ _).trans h.tokens,
      fun l mem => ?_, h.short, h.ordered, h.behind⟩
    · simp only [← h.balance, places, same]
    · exact h.returned l (List.mem_of_mem_eraseIdx mem)

/-! ## Sizes -/

/-- The numbers with which the server was started. -/
structure Sized (loops limit pending workers : Nat) (s : Connections) : Prop where
  loops : s.loops.length = loops
  limit : s.longConnLimit = limit
  pending : s.connChan.cap = pending
  workers : s.connChan.workers.length = workers

@[simp] theorem close_loops (s : Connections) (c : Nat) : (s.close c).loops = s.loops := by
  unfold close
  split <;> rfl

@[simp] theorem close_connChan (s : Connections) (c : Nat) : (s.close c).connChan = s.connChan := by
  unfold close
  split <;> rfl

@[simp] theorem close_long (s : Connections) (c : Nat) : (s.close c).long = s.long := by
  unfold close
  split <;> rfl

@[simp] theorem close_accepted (s : Connections) (c : Nat) : (s.close c).accepted = s.accepted := by
  unfold close
  split <;> rfl

@[simp] theorem close_longConnLimit (s : Connections) (c : Nat) :
    (s.close c).longConnLimit = s.longConnLimit := by
  unfold close
  split <;> rfl

theorem Sized.close {loops limit pending workers : Nat} (h : s.Sized loops limit pending workers)
    (c : Nat) : (s.close c).Sized loops limit pending workers :=
  ⟨by simpa using h.loops, by simpa using h.limit, by simpa using h.pending,
    by simpa using h.workers⟩

theorem Sized.chan {loops limit pending workers : Nat} (h : s.Sized loops limit pending workers)
    {op : WorkQueue.Op ConnTask} {q : WorkQueue ConnTask} (moved : s.connChan.Step op q) :
    Sized loops limit pending workers { s with connChan := q } :=
  ⟨h.loops, h.limit, (WorkQueue.cap_step moved).trans h.pending,
    (WorkQueue.workers_length_step moved).trans h.workers⟩

theorem Sized.dispatch {loops limit pending workers : Nat}
    (h : s.Sized loops limit pending workers) (keepAlive : Bool) (i c : Nat) :
    (s.dispatch keepAlive i c).Sized loops limit pending workers := by
  simp only [Connections.dispatch]
  split
  · split
    · exact ⟨h.loops, h.limit, h.pending, h.workers⟩
    · exact h.close c
  · split
    · rename_i q sent
      exact h.chan (WorkQueue.step_of_next sent)
    · exact h.close c

theorem Sized.step {loops limit pending workers : Nat} (h : s.Sized loops limit pending workers)
    {e : ConnectionEvent} (move : s.Step e s') : s'.Sized loops limit pending workers := by
  have set : ∀ i l, Sized loops limit pending workers { s with loops := s.loops.set i l } :=
    fun i l => ⟨by simpa using h.loops, h.limit, h.pending, h.workers⟩
  cases move with
  | accept => exact ⟨(set _ _).loops, h.limit, h.pending, h.workers⟩
  | dispatch => exact (set _ _).dispatch _ _ _
  | take took => exact h.chan took
  | handled _ done => exact (h.chan done).close _
  | returned | release =>
    exact ⟨by simpa using h.loops, by simpa using h.limit, by simpa using h.pending,
      by simpa using h.workers⟩

/-- There are no more open connections than places for them. -/
theorem Placed.accepted_le (h : Placed 0 s) {loops limit pending workers : Nat}
    (sized : s.Sized loops limit pending workers) :
    s.accepted ≤ s.closed.length + (loops + pending + workers + limit) := by
  have count := congrArg Multiset.card h.balance
  have held := card_tally_le (f := AcceptLoop.held) (l := s.loops) fun l _ => by
    cases taken : l.conn <;> simp [AcceptLoop.held, taken]
  have queued := h.chan.room
  have busy := card_tally_le (f := Worker.held) (l := s.connChan.workers) fun w _ => w.card_held
  have long := card_tally_le (f := LongConn.held) (l := s.long) fun l _ => by
    unfold LongConn.held
    split <;> simp
  have tokens := h.tokens
  obtain ⟨rfl, rfl, rfl, rfl⟩ := sized
  simp only [places, Multiset.card_add, Multiset.coe_card, List.length_map, Multiset.card_map,
    Multiset.card_range, Multiset.card_zero] at count
  omega

/-! ## When the handlers return -/

/-- No connection is held by a loop, waits or is handled, and all tokens are back. -/
structure Quiet (s : Connections) : Prop where
  loops : ∀ l ∈ s.loops, l.conn = none
  chan : s.connChan.Idle
  long : s.long = []

theorem Placed.closed_perm (h : Placed 0 s) (quiet : s.Quiet) :
    (s.closed : Multiset Nat) = Multiset.range s.accepted := by
  have balance := h.balance
  have loops : tally AcceptLoop.held s.loops = 0 := tally_eq_zero fun l mem => by
    simp [AcceptLoop.held, quiet.loops l mem]
  simpa [places, loops, quiet.chan.queue, quiet.long, tally_eq_zero quiet.chan.workers]
    using balance

def rank (s : Connections) : Nat :=
  tally AcceptLoop.rank s.loops + s.connChan.rank + tally LongConn.rank s.long

/-- What a loop hands on is at most two steps from its end. -/
theorem rank_dispatch (s : Connections) (keepAlive : Bool) (i c : Nat) :
    rank (s.dispatch keepAlive i c) ≤ rank s + 2 := by
  simp only [dispatch]
  split
  · split
    · simp [rank, LongConn.rank]
      omega
    · simp [rank]
  · split
    · rename_i q sent
      cases WorkQueue.step_of_next sent with
      | send =>
        simp [rank, WorkQueue.rank]
        omega
    · simp [rank]

theorem accepted_dispatch (s : Connections) (keepAlive : Bool) (i c : Nat) :
    (s.dispatch keepAlive i c).accepted = s.accepted := by
  simp only [dispatch]
  split
  · split
    · rfl
    · exact close_accepted _ _
  · split
    · rfl
    · exact close_accepted _ _

theorem accepted_of_handles {e : ConnectionEvent} (handles : e.handles = true)
    (move : s.Step e s') : s'.accepted = s.accepted := by
  cases move with
  | accept => cases handles
  | dispatch => exact accepted_dispatch _ _ _ _
  | take => rfl
  | handled | returned | release => exact close_accepted _ _

theorem exists_dispatch {i c : Nat} {keepAlive : Bool}
    (holds : s.loops[i]? = some ⟨keepAlive, some c⟩) :
    ∃ s', s.next (.dispatch i) = some s' ∧ rank s' < rank s := by
  refine ⟨dispatch { s with loops := s.loops.set i ⟨keepAlive, none⟩ } keepAlive i c,
    by simp only [next, holds], ?_⟩
  have most := rank_dispatch { s with loops := s.loops.set i ⟨keepAlive, none⟩ } keepAlive i c
  have less := tally_set_less (f := AcceptLoop.rank) holds (x := ⟨keepAlive, none⟩) (d := 3) rfl
  simp only [rank] at most ⊢
  omega

/-- As long as a connection is open, some loop or some handler can go on. -/
theorem Placed.exists_handle (h : Placed 0 s) (staffed : s.connChan.workers ≠ [])
    (busy : ¬ s.Quiet) :
    ∃ e s', e.handles = true ∧ s.next e = some s' ∧ rank s' < rank s := by
  by_cases free : ∀ l ∈ s.loops, l.conn = none
  · by_cases idle : s.connChan.Idle
    · have long : s.long ≠ [] := fun none => busy ⟨free, idle, none⟩
      obtain ⟨⟨c, returned⟩, rest, first⟩ := List.exists_cons_of_ne_nil long
      have there : s.long[0]? = some ⟨c, returned⟩ := by simp [first]
      cases returned with
      | false =>
        refine ⟨.returned 0, close { s with long := s.long.set 0 ⟨c, true⟩ } c, rfl,
          by simp [next, there], ?_⟩
        simp [rank, first, LongConn.rank]
      | true =>
        refine ⟨.release 0, close { s with long := s.long.eraseIdx 0 } c, rfl,
          by simp [next, there], ?_⟩
        simp [rank, first, LongConn.rank]
    · obtain ⟨op, q, works, move, less⟩ := h.chan.exists_work staffed idle
      have moved := WorkQueue.next_of_step move
      cases op with
      | take i =>
        refine ⟨.take i, { s with connChan := q }, rfl, by simp [next, moved], ?_⟩
        simpa [rank] using less
      | finish i =>
        have done : ∃ task, s.connChan.workers[i]? = some (.busy task) := by
          cases move with
          | finish busy => exact ⟨_, busy⟩
        obtain ⟨task, busy⟩ := done
        refine ⟨.handled i, close { s with connChan := q } task.conn, rfl,
          by simp [next, busy, moved], ?_⟩
        simpa [rank] using less
      | send | hand | close | leave => cases works
  · push Not at free
    obtain ⟨⟨keepAlive, conn⟩, mem, taken⟩ := free
    obtain ⟨i, there⟩ := List.mem_iff_getElem?.mp mem
    obtain ⟨c, rfl⟩ := Option.ne_none_iff_exists'.mp taken
    obtain ⟨s', move, less⟩ := exists_dispatch there
    exact ⟨.dispatch i, s', rfl, move, less⟩

theorem Placed.reaches_quiet (h : Placed 0 s) {loops limit pending workers : Nat}
    (sized : s.Sized loops limit pending workers) (staffed : 0 < workers) :
    ∃ s', Run (Moves next) (fun _ e => e.handles = true) s s' ∧
      (Placed 0 s' ∧ s'.Sized loops limit pending workers ∧ s'.accepted = s.accepted) ∧
      s'.Quiet := by
  refine Run.reach rank ?_ ⟨h, sized, rfl⟩
  rintro s₁ ⟨placed, sized, same⟩ busy
  have some : s₁.connChan.workers ≠ [] := List.ne_nil_of_length_pos (sized.workers ▸ staffed)
  obtain ⟨e, s₂, handles, move, less⟩ := placed.exists_handle some busy
  have step := step_of_next move
  exact ⟨e, s₂, handles, move,
    ⟨placed.step step, sized.step step, (accepted_of_handles handles step).trans same⟩, less⟩

/-- **Connections.** Whatever the loops accept and whichever handlers return, each accepted
connection is held by its loop, waits, is handled or is closed, and is only in one of these
places. There are never more open ones than the loops, the queue, the workers and the tokens
allow. Short connections are taken in the order in which they were queued, those of one loop in
the order in which it accepted them, and none of them for the other handler. When the loops hand
on what they hold and the handlers return, every connection is closed and every token given
back. -/
theorem bounded_and_closed {servers : List Bool} {configured : Int} {s : Connections}
    (run : Run (Moves next) (fun _ _ => True)
      (init servers Server.longConnLimit maxPendingConns (initWorkerPool configured)) s) :
    s.places + s.closed = Multiset.range s.accepted ∧
      s.accepted ≤ s.closed.length +
        (servers.length + maxPendingConns + initWorkerPool configured + Server.longConnLimit) ∧
      (s.connChan.sent = s.connChan.taken ++ s.connChan.queue ∧
        (s.connChan.sent.Pairwise fun a b => a.loop = b.loop → a.conn < b.conn) ∧
        ∀ task ∈ s.connChan.sent, task.keepAlive = false) ∧
      ∃ s', Run (Moves next) (fun _ e => e.handles = true) s s' ∧
        (s'.closed : Multiset Nat) = Multiset.range s.accepted ∧ s'.long = [] := by
  have placed : Placed 0 s :=
    run.invariant (fun _ _ _ h _ move => h.step (step_of_next move)) (.init _ _ _ _)
  have sized : s.Sized servers.length Server.longConnLimit maxPendingConns
      (initWorkerPool configured) :=
    run.invariant (fun _ _ _ h _ move => h.step (step_of_next move))
      ⟨List.length_map _, rfl, rfl, List.length_replicate⟩
  refine ⟨by simpa using placed.balance, placed.accepted_le sized, ⟨placed.chan.ordered,
    placed.ordered, fun task mem => (placed.short task mem).1⟩, ?_⟩
  obtain ⟨s', returning, ⟨placed', -, same⟩, quiet⟩ :=
    placed.reaches_quiet sized (initWorkerPool_pos configured)
  exact ⟨s', returning, same ▸ placed'.closed_perm quiet, quiet.long⟩

/-- Two loops for short connections, one for long ones and two workers. The second loop queues
its connection before the first, which accepted earlier; one short connection has been handled,
and the last one accepted is still held by its loop. -/
theorem bounded_and_closed_two_loops : ∃ s,
    Run (Moves next) (fun _ _ => True)
      (init [false, false, true] Server.longConnLimit maxPendingConns (initWorkerPool 2)) s ∧
    (s.accepted = 4 ∧ s.closed = [1] ∧ s.long = [⟨2, false⟩] ∧
      s.connChan.sent.map ConnTask.conn = [1, 0] ∧ s.loops[1]? = some ⟨false, some 3⟩) ∧
    ∃ s', Run (Moves next) (fun _ e => e.handles = true) s s' ∧
      (s'.closed : Multiset Nat) = Multiset.range 4 ∧ s'.long = [] := by
  have reached : ∃ s, Run (Moves next) (fun _ _ => True)
      (init [false, false, true] Server.longConnLimit maxPendingConns (initWorkerPool 2)) s ∧
      (s.accepted = 4 ∧ s.closed = [1] ∧ s.long = [⟨2, false⟩] ∧
        s.connChan.sent.map ConnTask.conn = [1, 0] ∧ s.loops[1]? = some ⟨false, some 3⟩) :=
    Run.exists_of_checked [.accept 0, .accept 1, .dispatch 1, .accept 2, .dispatch 0, .take 1,
      .dispatch 2, .accept 1, .handled 1, .take 0] (by decide +kernel)
  obtain ⟨s, run, seen⟩ := reached
  exact ⟨s, run, seen, seen.1 ▸ (bounded_and_closed run).2.2.2⟩

end Connections

end SkyAccel.Server
