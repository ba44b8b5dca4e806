import SkyAccel.Aggregator.Intake

/-!
# From the input channel to the frames

`AddToBatch` and `Start` of both versions. The messages wait in one channel, from which every
goroutine takes. A worker of the first version handles whatever it takes. The goroutine of a
shard of the second version handles a message only if its routing key belongs to the shard,
and drops it otherwise, although no other goroutine sees it again (`message_dropped`).

If every message is taken by the goroutine of its own shard, then each is handled once, and
in the end the records that both versions accept have left either of them
(`sharded_delivers_iff`).
-/

namespace SkyAccel.Aggregator

open Tunnel
open scoped List

/-- A goroutine with its worker or shard, and the messages it has handled. -/
structure Consumer where
  worker : State
  handled : List AggregatorMsg

/-- `put` and `dropped` are not part of the program. -/
structure System where
  channel : List AggregatorMsg
  consumers : List Consumer
  put : List AggregatorMsg
  dropped : List AggregatorMsg

/-- A message is put on the channel, goroutine `i` takes the next one, or goroutine `i` or
the one that looks after its timeouts goes on. -/
inductive SystemEvent
  | addToBatch (msg : AggregatorMsg)
  | receive (i : Nat)
  | work (i : Nat) (e : Event)

namespace System

def init (n : Nat) : System := ⟨[], List.replicate n ⟨State.init, []⟩, [], []⟩

/-- A panic in one goroutine ends them all. -/
def crashed (s : System) : Bool := s.consumers.any (·.worker.crashed)

section
variable (turn : State → Event → Option State) (admits : Nat → AggregatorMsg → Bool)

def next (s : System) (e : SystemEvent) : Option System :=
  if s.crashed then none
  else
    match e with
    | .addToBatch msg => some { s with channel := s.channel ++ [msg], put := s.put ++ [msg] }
    | .receive i =>
      match s.consumers[i]?, s.channel with
      | some c, msg :: rest =>
        if c.worker.handler = .idle then
          if admits i msg then
            (turn c.worker (.receive msg)).map fun w => { s with
              channel := rest
              consumers := s.consumers.set i ⟨w, c.handled ++ [msg]⟩ }
          else some { s with channel := rest, dropped := s.dropped ++ [msg] }
        else none
      | _, _ => none
    | .work i e => do
      let c ← s.consumers[i]?
      if e.settles then
        (turn c.worker e).map fun w =>
          { s with consumers := s.consumers.set i { c with worker := w } }
      else none

end

end System

/-- FNV-1a of the routing key. -/
def fnv32a (key : String) : UInt32 :=
  key.toUTF8.data.toList.foldl (fun h b => (h ^^^ b.toUInt32) * 16777619) 2166136261

def shardCount : Nat := 16

def hashRoutingKey (key : String) : Nat := (fnv32a key).toNat % shardCount

namespace System

/-- The aggregator of `aggregator.go`. -/
def nextV1 (cfg : Config) : System → SystemEvent → Option System :=
  next (State.next cfg) fun _ _ => true

/-- The aggregator of `aggregator_v2.go`. -/
def nextV2 (cfg : Config) : System → SystemEvent → Option System :=
  next ((Version.v2 cfg).next cfg) fun i msg => hashRoutingKey msg.routingKey = i

def handled (s : System) : List AggregatorMsg := s.consumers.flatMap Consumer.handled

def frames (s : System) : List SendInfo := s.consumers.flatMap fun c => c.worker.sent

/-- The messages whose records have left. -/
def flushed (s : System) : List AggregatorMsg := (s.frames.flatMap SendInfo.log).map Ticket.msg

/-- The channel is empty, and nothing is left to flush. -/
structure Settled (s : System) : Prop where
  channel : s.channel = []
  workers : ∀ c ∈ s.consumers, c.worker.Settled

instance (s : System) : Decidable s.Settled :=
  decidable_of_iff (s.channel = [] ∧ ∀ c ∈ s.consumers, c.worker.Settled)
    ⟨fun h => ⟨h.1, h.2⟩, fun h => ⟨h.channel, h.workers⟩⟩

/-- Each message was handled once or still waits, and was handled in its own shard. -/
structure Once (s : System) : Prop where
  once : s.handled ++ s.channel ~ s.put
  own : ∀ i c, s.consumers[i]? = some c → ∀ msg ∈ c.handled, hashRoutingKey msg.routingKey = i

/-- The frames carry the records of their logs, and of the messages that both versions have
room for the same records have left. -/
structure Agree (cfg : Config) (s s₁ : System) : Prop where
  carried : ∀ f ∈ s.frames ++ s₁.frames, f.Carries
  same : s.flushed.filter (fun msg => (Version.v1 cfg).fits msg && (Version.v2 cfg).fits msg) ~
    s₁.flushed.filter fun msg => (Version.v1 cfg).fits msg && (Version.v2 cfg).fits msg

/-- The goroutine that takes a message is that of its shard. -/
def OwnShard (s : System) : SystemEvent → Prop
  | .receive i => ∀ msg ∈ s.channel.head?, hashRoutingKey msg.routingKey = i
  | _ => True

instance (s : System) : (e : SystemEvent) → Decidable (s.OwnShard e)
  | .receive i => inferInstanceAs (Decidable (∀ msg ∈ s.channel.head?, _ = i))
  | .addToBatch _ | .work _ _ => isTrue trivial

end System

namespace SystemEvent

/-- The message that is put on the channel fits into a frame. -/
def Short : SystemEvent → Prop
  | .addToBatch msg => msg.Short
  | _ => True

instance : (e : SystemEvent) → Decidable e.Short
  | .addToBatch msg => inferInstanceAs (Decidable msg.Short)
  | .receive _ | .work _ _ => isTrue trivial

/-- No new message is put on the channel. -/
def settles : SystemEvent → Bool
  | .addToBatch _ => false
  | _ => true

end SystemEvent

namespace System

/-! ## What a step can do -/

section
variable {turn : State → Event → Option State} {admits : Nat → AggregatorMsg → Bool}
  {s s' : System} {e : SystemEvent}

theorem next_cases (h : s.next turn admits e = some s') :
    (∃ msg, e = .addToBatch msg ∧
        s' = { s with channel := s.channel ++ [msg], put := s.put ++ [msg] }) ∨
      (∃ i c msg rest w, e = .receive i ∧ s.consumers[i]? = some c ∧ s.channel = msg :: rest ∧
        admits i msg = true ∧ turn c.worker (.receive msg) = some w ∧
        s' = { s with
          channel := rest
          consumers := s.consumers.set i ⟨w, c.handled ++ [msg]⟩ }) ∨
      (∃ i msg rest, e = .receive i ∧ s.channel = msg :: rest ∧ admits i msg = false ∧
        s' = { s with channel := rest, dropped := s.dropped ++ [msg] }) ∨
      ∃ i c e' w, e = .work i e' ∧ s.consumers[i]? = some c ∧ e'.settles = true ∧
        turn c.worker e' = some w ∧
        s' = { s with consumers := s.consumers.set i { c with worker := w } } := by
  unfold next at h
  split at h
  · cases h
  · cases e with
    | addToBatch msg => exact .inl ⟨msg, rfl, (Option.some.inj h).symm⟩
    | receive i =>
      simp only at h
      split at h
      · rename_i c msg rest at_ waiting
        split at h
        · split at h
          · rename_i admitted
            obtain ⟨w, moved, rfl⟩ := Option.map_eq_some_iff.mp h
            exact .inr (.inl ⟨i, c, msg, rest, w, rfl, at_, waiting, admitted, moved, rfl⟩)
          · rename_i other
            have other := Bool.eq_false_of_not_eq_true other
            exact .inr (.inr (.inl ⟨i, msg, rest, rfl, waiting, other, (Option.some.inj h).symm⟩))
        · cases h
      · cases h
    | work i e' =>
      obtain ⟨c, at_, h⟩ := Option.bind_eq_some_iff.mp h
      split at h
      · rename_i settles
        obtain ⟨w, moved, rfl⟩ := Option.map_eq_some_iff.mp h
        exact .inr (.inr (.inr ⟨i, c, e', w, rfl, at_, settles, moved, rfl⟩))
      · cases h

theorem next_receive {i : Nat} {c : Consumer} {msg : AggregatorMsg} {rest : List AggregatorMsg}
    {w : State} (up : s.crashed = false) (at_ : s.consumers[i]? = some c)
    (waiting : s.channel = msg :: rest) (idle : c.worker.handler = .idle)
    (admitted : admits i msg = true) (moved : turn c.worker (.receive msg) = some w) :
    s.next turn admits (.receive i) = some { s with
      channel := rest
      consumers := s.consumers.set i ⟨w, c.handled ++ [msg]⟩ } := by
  simp [next, up, at_, waiting, idle, admitted, moved]

theorem next_work {i : Nat} {c : Consumer} {e' : Event} {w : State} (up : s.crashed = false)
    (at_ : s.consumers[i]? = some c) (settles : e'.settles = true)
    (moved : turn c.worker e' = some w) :
    s.next turn admits (.work i e') =
      some { s with consumers := s.consumers.set i { c with worker := w } } := by
  simp [next, up, at_, settles, moved]

/-! ## Where the messages are -/

/-- Each message was handled, was dropped or still waits, and goroutines handle the messages
they admit. -/
structure Ledger (admits : Nat → AggregatorMsg → Bool) (s : System) : Prop where
  all : s.handled ++ s.dropped ++ s.channel ~ s.put
  own : ∀ i c, s.consumers[i]? = some c → ∀ msg ∈ c.handled, admits i msg = true

theorem handled_set {i : Nat} {c : Consumer} (at_ : s.consumers[i]? = some c) (w : State) :
    (s.consumers.set i { c with worker := w }).flatMap Consumer.handled = s.handled := by
  have same := Store.map_set (x := { c with worker := w }) (f := Consumer.handled) at_ rfl
  rw [List.flatMap_def, same, ← List.flatMap_def]
  rfl

theorem handled_set_perm {i : Nat} {c : Consumer} (at_ : s.consumers[i]? = some c) (w : State)
    (msg : AggregatorMsg) :
    (s.consumers.set i ⟨w, c.handled ++ [msg]⟩).flatMap Consumer.handled ~ msg :: s.handled := by
  have moved := Store.flatMap_set_perm at_ ⟨w, c.handled ++ [msg]⟩ Consumer.handled
  rw [List.append_assoc] at moved
  exact (List.perm_append_left_iff c.handled).mp moved

theorem Ledger.init (n : Nat) : Ledger admits (init n) := by
  constructor
  · simp [System.init, handled]
  · intro i c at_ msg mem
    rw [List.eq_of_mem_replicate (List.mem_of_getElem? at_)] at mem
    cases mem

theorem Ledger.own_set (h : Ledger admits s) {i : Nat} {c c' : Consumer}
    (at_ : s.consumers[i]? = some c) (new : ∀ msg ∈ c'.handled, admits i msg = true) :
    ∀ k x, (s.consumers.set i c')[k]? = some x → ∀ msg ∈ x.handled, admits k msg = true := by
  intro k x at_' msg mem
  rw [Store.getElem?_set at_] at at_'
  split at at_'
  · rename_i same
    obtain rfl := Option.some.inj at_'
    exact same ▸ new msg mem
  · exact h.own k x at_' msg mem

theorem Ledger.step (h : Ledger admits s) (move : s.next turn admits e = some s') :
    Ledger admits s' := by
  obtain ⟨msg, -, rfl⟩ | ⟨i, c, msg, rest, w, -, at_, waiting, admitted, -, rfl⟩ |
    ⟨i, msg, rest, -, waiting, -, rfl⟩ | ⟨i, c, e', w, -, at_, -, -, rfl⟩ := next_cases move
  · refine ⟨?_, h.own⟩
    have all := h.all.append_right [msg]
    rw [List.append_assoc] at all
    exact all
  · have all := h.all
    rw [waiting] at all
    constructor
    · refine List.Perm.trans ?_ all
      refine (((handled_set_perm at_ w msg).append_right s.dropped).append_right rest).trans ?_
      exact List.perm_middle.symm
    · refine h.own_set at_ fun m mem => ?_
      obtain mem | last := List.mem_append.mp mem
      · exact h.own i c at_ m mem
      · rw [List.mem_singleton.mp last]
        exact admitted
  · refine ⟨?_, h.own⟩
    have all := h.all
    rw [waiting] at all
    have moved : s.handled ++ (s.dropped ++ [msg]) ++ rest =
        s.handled ++ s.dropped ++ msg :: rest := by
      simp only [List.append_assoc, List.singleton_append]
    exact (List.Perm.of_eq moved).trans all
  · constructor
    · rw [handled, handled_set at_]
      exact h.all
    · exact h.own_set at_ (h.own i c at_)

end

/-! ## What the goroutines keep -/

end System

/-- A goroutine is in order, and has accepted what it handled as far as it fits. -/
def Consumer.Healthy (v : Version) (cfg : Config) (c : Consumer) : Prop :=
  Orderly v cfg c.worker ∧ Intake v c.handled c.worker

namespace System

structure Healthy (v : Version) (cfg : Config) (s : System) : Prop where
  each : ∀ c ∈ s.consumers, c.Healthy v cfg
  short : ∀ msg ∈ s.channel, msg.Short

section
variable {v : Version} {cfg : Config} {admits : Nat → AggregatorMsg → Bool} {s s' : System}
  {e : SystemEvent}

theorem Healthy.init (n : Nat) : Healthy v cfg (init n) := by
  refine ⟨fun c mem => ?_, nofun⟩
  rw [List.eq_of_mem_replicate mem]
  exact ⟨Orderly.init, Intake.init⟩

theorem Healthy.set (h : Healthy v cfg s) {i : Nat} {c : Consumer} (new : c.Healthy v cfg) :
    ∀ x ∈ s.consumers.set i c, x.Healthy v cfg := by
  intro x mem
  obtain mem | rfl := List.mem_or_eq_of_mem_set mem
  · exact h.each x mem
  · exact new

theorem Healthy.step (h : Healthy v cfg s) (sized : v.Sized cfg) (short : e.Short)
    (move : s.next (v.next cfg) admits e = some s') : Healthy v cfg s' := by
  obtain ⟨msg, rfl, rfl⟩ | ⟨i, c, msg, rest, w, -, at_, waiting, -, moved, rfl⟩ |
    ⟨i, msg, rest, -, waiting, -, rfl⟩ | ⟨i, c, e', w, -, at_, settles, moved, rfl⟩ :=
      next_cases move
  · refine ⟨h.each, fun m mem => ?_⟩
    obtain mem | last := List.mem_append.mp mem
    · exact h.short m mem
    · rw [List.mem_singleton.mp last]
      exact short
  · have all : ∀ m ∈ msg :: rest, m.Short := waiting ▸ h.short
    obtain ⟨orderly, intake⟩ := h.each c (List.mem_of_getElem? at_)
    have own : ∀ m ∈ (Event.receive msg).message, m.Short := by
      rintro m ⟨⟩
      exact all msg List.mem_cons_self
    have moved := Version.step_of_next moved
    exact ⟨h.set ⟨orderly.step sized own moved, intake.step orderly sized own moved⟩,
      fun m mem => all m (List.mem_cons_of_mem _ mem)⟩
  · refine ⟨h.each, fun m mem => h.short m ?_⟩
    rw [waiting]
    exact List.mem_cons_of_mem _ mem
  · obtain ⟨orderly, intake⟩ := h.each c (List.mem_of_getElem? at_)
    have none := message_of_settles settles
    have moved := Version.step_of_next moved
    have intake' := intake.step orderly sized (by rw [none]; exact nofun) moved
    rw [none, Option.toList_none, List.append_nil] at intake'
    exact ⟨h.set ⟨orderly.settle_step sized settles moved, intake'⟩, h.short⟩

theorem Healthy.up (h : Healthy v cfg s) : s.crashed = false := by
  rw [crashed, List.any_eq_false]
  intro c mem
  rw [(h.each c mem).1.up]
  exact Bool.false_ne_true

/-- In the end the messages that fit have left, in frames that carry their records. -/
theorem Healthy.flushed_perm (h : Healthy v cfg s) (settled : s.Settled) :
    s.flushed ~ s.handled.filter v.fits ∧ ∀ f ∈ s.frames, f.Carries := by
  constructor
  · have each : ∀ c ∈ s.consumers,
        (c.worker.sent.flatMap SendInfo.log).map Ticket.msg ~ c.handled.filter v.fits :=
      fun c mem => (h.each c mem).1.sent_perm (h.each c mem).2 (settled.workers c mem)
    rw [flushed, frames, handled, List.flatMap_assoc, List.map_flatMap, List.filter_flatMap]
    exact List.Perm.flatMap_left _ each
  · intro f mem
    obtain ⟨c, mem, sent⟩ := List.mem_flatMap.mp mem
    exact (h.each c mem).1.carried f (List.mem_append_left _ sent)

/-! ## Coming to an end -/

/-- The goroutine that takes a message admits it. -/
def Admitted (admits : Nat → AggregatorMsg → Bool) (s : System) : SystemEvent → Prop
  | .receive i => ∀ msg ∈ s.channel.head?, admits i msg = true
  | _ => True

/-- No message is put on the channel, and none is dropped. -/
def Finishing (admits : Nat → AggregatorMsg → Bool) (s : System) (e : SystemEvent) : Prop :=
  e.settles = true ∧ s.Admitted admits e

theorem Finishing.short (h : s.Finishing admits e) : e.Short := by
  cases e with
  | addToBatch msg => cases h.1
  | receive i => trivial
  | work i e => trivial

theorem Healthy.finish (h : Healthy v cfg s) (sized : v.Sized cfg)
    (run : Run (Moves (next (v.next cfg) admits)) (Finishing admits) s s') : Healthy v cfg s' :=
  run.invariant (P := Healthy v cfg)
    (fun _ _ _ h finishing move => h.step sized finishing.short move) h

/-- What one goroutine can do by itself, the system can do. -/
theorem Healthy.lift (h : Healthy v cfg s) (sized : v.Sized cfg)
    (admits : Nat → AggregatorMsg → Bool) {i : Nat} {c : Consumer}
    (at_ : s.consumers[i]? = some c) {w : State}
    (run : Run (v.Step cfg) (fun _ e => e.settles = true) c.worker w) :
    Run (Moves (next (v.next cfg) admits)) (Finishing admits) s
      { s with consumers := s.consumers.set i { c with worker := w } } := by
  induction run with
  | start =>
    obtain ⟨lt, rfl⟩ := List.getElem?_eq_some_iff.mp at_
    rw [List.set_getElem_self]
    exact .start
  | @next w w' e _ settles move ih =>
    have healthy := h.finish sized ih
    have here : (s.consumers.set i { c with worker := w })[i]? = some { c with worker := w } := by
      rw [Store.getElem?_set at_, if_pos rfl]
    have moved : next (v.next cfg) admits _ (.work i e) = _ :=
      next_work healthy.up here settles (Version.next_of_step move)
    rw [List.set_set] at moved
    exact ih.next (e := .work i e) ⟨rfl, trivial⟩ moved

theorem Healthy.settle_first (h : Healthy v cfg s) (sized : v.Sized cfg)
    (admits : Nat → AggregatorMsg → Bool) (k : Nat) :
    ∃ s', Run (Moves (next (v.next cfg) admits)) (Finishing admits) s s' ∧ Healthy v cfg s' ∧
      s'.channel = s.channel ∧ s'.put = s.put ∧ s'.consumers.length = s.consumers.length ∧
      ∀ j < k, ∀ c, s'.consumers[j]? = some c → c.worker.Settled := by
  induction k with
  | zero => exact ⟨s, .start, h, rfl, rfl, rfl, nofun⟩
  | succ k ih =>
    obtain ⟨s₁, run, healthy, channel, put, length, settled⟩ := ih
    cases at_ : s₁.consumers[k]? with
    | none =>
      refine ⟨s₁, run, healthy, channel, put, length, fun j lt c here => ?_⟩
      obtain less | rfl := Nat.lt_succ_iff_lt_or_eq.mp lt
      · exact settled j less c here
      · rw [at_] at here
        cases here
    | some c =>
      have orderly := (healthy.each c (List.mem_of_getElem? at_)).1
      obtain ⟨w, work, -, done⟩ := Version.settle (v := v) (P := Orderly v cfg)
        (fun _ _ _ h settles move => h.settle_step sized settles move)
        (fun _ h => h.ready sized) orderly
      have lifted := healthy.lift sized admits at_ work
      refine ⟨_, run.trans lifted, ?_, channel, put, ?_, fun j lt x here => ?_⟩
      · exact healthy.finish sized lifted
      · exact List.length_set.trans length
      · rw [Store.getElem?_set at_] at here
        split at here
        · obtain rfl := Option.some.inj here
          exact done
        · rename_i other
          exact settled j ((Nat.lt_succ_iff_lt_or_eq.mp lt).resolve_right other) x here

/-- From every state of a healthy system in which each message has a goroutine, the messages
that wait are handled and everything is flushed. -/
theorem Healthy.drain (h : Healthy v cfg s) (sized : v.Sized cfg)
    (admits : Nat → AggregatorMsg → Bool)
    (taken : ∀ msg, ∃ i < s.consumers.length, admits i msg = true) :
    ∃ s', Run (Moves (next (v.next cfg) admits)) (Finishing admits) s s' ∧ s'.Settled ∧
      s'.put = s.put := by
  induction waiting : s.channel generalizing s with
  | nil =>
    obtain ⟨s', run, -, channel, put, length, settled⟩ :=
      h.settle_first sized admits s.consumers.length
    refine ⟨s', run, ⟨channel.trans waiting, fun c mem => ?_⟩, put⟩
    obtain ⟨j, lt, rfl⟩ := List.mem_iff_getElem.mp mem
    exact settled j (length ▸ lt) _ (List.getElem?_eq_getElem lt)
  | cons msg rest ih =>
    obtain ⟨s₁, run, healthy, channel, put, length, settled⟩ :=
      h.settle_first sized admits s.consumers.length
    obtain ⟨i, lt, admitted⟩ := taken msg
    rw [← length] at lt
    have at_ := List.getElem?_eq_getElem lt
    have idle := (settled i (length ▸ lt) _ at_).handler
    rw [waiting] at channel
    have up := (healthy.each _ (List.getElem_mem lt)).1.up
    have moved := Version.next_of_step (.receive msg up idle : v.Step cfg _ (.receive msg) _)
    have move := next_receive healthy.up at_ channel idle admitted moved
    have finishing : s₁.Finishing admits (.receive i) := by
      refine ⟨rfl, fun m mem => ?_⟩
      rw [channel] at mem
      obtain rfl := Option.some.inj mem
      exact admitted
    obtain ⟨s', run', settled', put'⟩ := ih (healthy.step sized finishing.short move)
      (by simpa [length] using taken) rfl
    exact ⟨s', (run.next finishing move).trans run', settled', put'.trans put⟩

end

/-! ## The two versions -/

/-- The workers of the first version take no step of eviction. -/
theorem nextV1_eq (cfg : Config) :
    nextV1 cfg = next ((Version.v1 cfg).next cfg) fun _ _ => true := by
  have receive : ∀ s msg,
      State.next cfg s (.receive msg) = (Version.v1 cfg).next cfg s (.receive msg) :=
    fun _ _ => (next_v1 rfl).symm
  have work : ∀ s e, e.settles = true → State.next cfg s e = (Version.v1 cfg).next cfg s e :=
    fun _ _ settles => (next_v1 (evicts_of_settles settles)).symm
  funext s e
  unfold nextV1 next
  cases e with
  | addToBatch msg => rfl
  | receive i => simp only [receive]
  | work i e =>
    by_cases settles : e.settles = true
    · simp only [settles, work _ e settles]
    · simp only [settles, Bool.false_eq_true, if_false]

section
variable {cfg : Config} {s : System}

theorem healthy_of_run {v : Version} (sized : v.Sized cfg) {admits : Nat → AggregatorMsg → Bool}
    {n : Nat} (run : Run (Moves (next (v.next cfg) admits)) (fun _ e => e.Short) (init n) s) :
    Healthy v cfg s :=
  run.invariant (P := Healthy v cfg) (fun _ _ _ h short move => h.step sized short move)
    (Healthy.init n)

theorem ledger_of_run {turn : State → Event → Option State} {admits : Nat → AggregatorMsg → Bool}
    {ok : System → SystemEvent → Prop} {n : Nat}
    (run : Run (Moves (next turn admits)) ok (init n) s) : Ledger admits s :=
  run.invariant (fun _ _ _ h _ move => h.step move) (Ledger.init n)

/-- The goroutines of the shards, whatever they take, handle their own messages, and each
message once exactly if none is dropped. -/
theorem once_iff {ok : System → SystemEvent → Prop}
    (run : Run (Moves (nextV2 cfg)) ok (init shardCount) s) : s.Once ↔ s.dropped = [] := by
  have ledger := ledger_of_run run
  constructor
  · intro once
    have lengths := (ledger.all.trans once.once.symm).length_eq
    simp only [List.length_append] at lengths
    exact List.eq_nil_of_length_eq_zero (by omega)
  · intro none
    have all := ledger.all
    rw [none, List.append_nil] at all
    exact ⟨all, fun i c at_ msg mem => of_decide_eq_true (ledger.own i c at_ msg mem)⟩

theorem dropped_of_run {turn : State → Event → Option State} {admits : Nat → AggregatorMsg → Bool}
    {ok : System → SystemEvent → Prop} (admitted : ∀ s e, ok s e → s.Admitted admits e) {n : Nat}
    (run : Run (Moves (next turn admits)) ok (init n) s) : s.dropped = [] := by
  refine run.invariant (P := fun s => s.dropped = []) (fun s e s' none meets move => ?_) rfl
  obtain ⟨msg, -, rfl⟩ | ⟨i, c, msg, rest, w, -, -, -, -, -, rfl⟩ |
    ⟨i, msg, rest, rfl, waiting, other, -⟩ | ⟨i, c, e', w, -, -, -, -, rfl⟩ := next_cases move
  · exact none
  · exact none
  · have taken := admitted s _ meets msg (by rw [waiting]; rfl)
    rw [other] at taken
    cases taken
  · exact none

theorem admitted_iff (s : System) (e : SystemEvent) :
    s.Admitted (fun i msg => hashRoutingKey msg.routingKey = i) e ↔ s.OwnShard e := by
  cases e with
  | receive i => simp only [Admitted, OwnShard, decide_eq_true_eq]
  | addToBatch msg => exact Iff.rfl
  | work i e => exact Iff.rfl

/-- In the end, what was put on the channel has left, as far as it fits. -/
theorem Healthy.flushed_put {v : Version} {admits : Nat → AggregatorMsg → Bool}
    (h : Healthy v cfg s) (ledger : Ledger admits s) (none : s.dropped = []) (settled : s.Settled) :
    s.flushed ~ s.put.filter v.fits := by
  have all := ledger.all
  rw [none, settled.channel, List.append_nil, List.append_nil] at all
  exact (h.flushed_perm settled).1.trans (all.filter _)

theorem length_of_run {turn : State → Event → Option State} {admits : Nat → AggregatorMsg → Bool}
    {ok : System → SystemEvent → Prop} {n : Nat}
    (run : Run (Moves (next turn admits)) ok (init n) s) : s.consumers.length = n := by
  refine run.invariant (P := fun s => s.consumers.length = n) (fun s e s' length _ move => ?_)
    List.length_replicate
  obtain ⟨msg, -, rfl⟩ | ⟨i, c, msg, rest, w, -, -, -, -, -, rfl⟩ | ⟨i, msg, rest, -, -, -, rfl⟩ |
    ⟨i, c, e', w, -, -, -, -, rfl⟩ := next_cases move
  · exact length
  · exact List.length_set.trans length
  · exact length
  · exact List.length_set.trans length

end

/-- **Where every message is taken by the goroutine of its own shard**, the second version
handles each once, comes to an end, and has then sent the same records as the first, of the
messages that both have room for. A message that is taken by another goroutine is not handled. -/
theorem sharded_delivers_iff (cfg : Config) (low : headerSize ≤ cfg.bufferSize)
    (high : cfg.bufferSize ≤ 65536) :
    (∀ s, Run (Moves (nextV2 cfg)) (fun s e => e.Short ∧ s.OwnShard e) (init shardCount) s →
      s.Once ∧
      (∃ s', Run (Moves (nextV2 cfg)) (fun s e => e.settles = true ∧ s.OwnShard e) s s' ∧
        s'.Settled ∧ s'.put = s.put) ∧
      ∀ n s₁, Run (Moves (nextV1 cfg)) (fun _ e => e.Short) (init n) s₁ → s.Settled → s₁.Settled →
        s₁.put ~ s.put → Agree cfg s s₁) ∧
    ∀ ok s, Run (Moves (nextV2 cfg)) ok (init shardCount) s → (s.Once ↔ s.dropped = []) := by
  refine ⟨fun s run => ?_, fun ok s run => once_iff run⟩
  have healthy : Healthy (Version.v2 cfg) cfg s :=
    healthy_of_run (sized_v2 low high) (run.mono fun _ _ => And.left)
  have none := dropped_of_run (fun s e meets => (admitted_iff s e).mpr meets.2) run
  refine ⟨(once_iff run).mpr none, ?_, fun n s₁ run₁ settled settled₁ same => ?_⟩
  · have taken : ∀ msg : AggregatorMsg, ∃ i < s.consumers.length,
        decide (hashRoutingKey msg.routingKey = i) = true := by
      intro msg
      rw [length_of_run run]
      exact ⟨_, Nat.mod_lt _ (by decide), decide_eq_true rfl⟩
    obtain ⟨s', run', settled, put⟩ := healthy.drain (sized_v2 low high) _ taken
    exact ⟨s', run'.mono fun s e h => ⟨h.1, (admitted_iff s e).mp h.2⟩, settled, put⟩
  · rw [nextV1_eq] at run₁
    have healthy₁ : Healthy (Version.v1 cfg) cfg s₁ := healthy_of_run (sized_v1 low high) run₁
    have none₁ := dropped_of_run (fun s e _ => by cases e <;> simp [Admitted]) run₁
    have sent := healthy.flushed_put (ledger_of_run run) none settled
    have sent₁ := healthy₁.flushed_put (ledger_of_run run₁) none₁ settled₁
    constructor
    · intro f mem
      obtain mem | mem := List.mem_append.mp mem
      · exact (healthy.flushed_perm settled).2 f mem
      · exact (healthy₁.flushed_perm settled₁).2 f mem
    · refine (sent.filter _).trans (.trans ?_ (sent₁.filter _).symm)
      rw [List.filter_filter, List.filter_filter]
      have both : ∀ msg : AggregatorMsg,
          ((Version.v1 cfg).fits msg && (Version.v2 cfg).fits msg && (Version.v2 cfg).fits msg) =
            ((Version.v1 cfg).fits msg && (Version.v2 cfg).fits msg && (Version.v1 cfg).fits msg) := by
        intro msg
        cases (Version.v1 cfg).fits msg <;> cases (Version.v2 cfg).fits msg <;> rfl
      simp only [both]
      exact same.symm.filter _

/-- The goroutine of shard 0 takes a request of shard 12, which is gone. A worker of the first
version sends it. -/
theorem message_dropped :
    (∃ s, Run (Moves (nextV2 shipped)) (fun _ e => e.Short) (init shardCount) s ∧
      s.put = [request 80 7] ∧ s.handled = [] ∧ s.dropped = [request 80 7] ∧ s.Settled ∧
      s.flushed = []) ∧
    ∃ s₁, Run (Moves (nextV1 shipped)) (fun _ e => e.Short) (init 1) s₁ ∧
      s₁.put = [request 80 7] ∧ s₁.Settled ∧ s₁.flushed = [request 80 7] := by
  constructor
  · apply Run.exists_of_checked [.addToBatch (request 80 7), .receive 0]
    decide +kernel
  · apply Run.exists_of_checked [.addToBatch (request 80 7), .receive 0, .work 0 (.create [0]),
      .work 0 .append, .work 0 (.push 0), .work 0 .unlock, .work 0 (.expire 60000000),
      .work 0 .flushBatch, .work 0 .flush]
    decide +kernel

/-- Buffers with room for two requests. -/
def smallBuffers : Config := { shipped with bufferSize := 300 }

def fourRequests : List AggregatorMsg :=
  [request 80 7, otherRequest 80 8, request 80 9, request 80 10]

/-- A goroutine takes the first message of a path. -/
def opening (i : Nat) : List SystemEvent :=
  [.receive i, .work i (.create [0]), .work i .append, .work i (.push 0), .work i .unlock]

/-- The goroutine of shard 12 takes three requests, the last of which finds its batch full, and
that of shard 14 takes one. -/
def shardTurns : List SystemEvent :=
  List.flatten [fourRequests.map .addToBatch, opening 12, opening 14,
    [.receive 12, .work 12 .append, .work 12 .unlock, .receive 12, .work 12 .append,
      .work 12 (.openBatch 0), .work 12 .appendNew, .work 12 (.push 0), .work 12 .unlock,
      .work 12 (.expire 60000000), .work 12 .flushBatch, .work 12 .flushBatch, .work 12 .flush,
      .work 14 (.expire 60000000), .work 14 .flushBatch, .work 14 .flush]]

/-- Two workers of the first version take two each. -/
def workerTurns : List SystemEvent :=
  List.flatten [fourRequests.map .addToBatch, opening 0, opening 1, opening 1,
    [.receive 0, .work 0 .append, .work 0 .unlock,
      .work 0 (.expire 60000000), .work 0 .flushBatch, .work 0 .flush,
      .work 1 (.expire 60000000), .work 1 .flushBatch, .work 1 .flushBatch, .work 1 .flush]]

theorem sharded_delivers_four :
    ∃ s s₁, Run (Moves (nextV2 smallBuffers)) (fun s e => e.Short ∧ s.OwnShard e)
        (init shardCount) s ∧
      Run (Moves (nextV1 smallBuffers)) (fun _ e => e.Short) (init 2) s₁ ∧
      s.flushed = [request 80 7, request 80 9, request 80 10, otherRequest 80 8] ∧
      s₁.flushed = [request 80 7, request 80 10, otherRequest 80 8, request 80 9] ∧
      s.Once ∧ Agree smallBuffers s s₁ := by
  obtain ⟨s, run, put, settled, flushed⟩ : ∃ s, Run (Moves (nextV2 smallBuffers))
      (fun s e => e.Short ∧ s.OwnShard e) (init shardCount) s ∧ s.put = fourRequests ∧ s.Settled ∧
      s.flushed = [request 80 7, request 80 9, request 80 10, otherRequest 80 8] := by
    apply Run.exists_of_checked shardTurns
    decide +kernel
  obtain ⟨s₁, run₁, put₁, settled₁, flushed₁⟩ : ∃ s, Run (Moves (nextV1 smallBuffers))
      (fun _ e => e.Short) (init 2) s ∧ s.put = fourRequests ∧ s.Settled ∧
      s.flushed = [request 80 7, request 80 10, otherRequest 80 8, request 80 9] := by
    apply Run.exists_of_checked workerTurns
    decide +kernel
  obtain ⟨once, -, agree⟩ := (sharded_delivers_iff smallBuffers (by decide) (by decide)).1 s run
  exact ⟨s, s₁, run, run₁, flushed, flushed₁, once,
    agree 2 s₁ run₁ settled settled₁ (.of_eq (put₁.trans put.symm))⟩

/-- A message of 65507 to 65529 bytes, which the second version sends at once, does not fit
into a pooled buffer with its header, and ends the program. -/
theorem long_message_crashes {cfg : Config} {s : State} {msg : AggregatorMsg}
    (long : 65536 < headerSize + (6 + msg.data.length)) (short : 6 + msg.data.length < 65536) :
    ((Version.v2 cfg).receive s msg).crashed = true := by
  have : headerSize = 24 := rfl
  have large : 1024 ≤ msg.data.length := by omega
  have size : (Version.v2 cfg).buffSize msg = headerSize + (6 + msg.data.length) :=
    (if_pos large).trans (by omega)
  have urgent : (Version.v2 cfg).emerges msg = true :=
    Bool.or_eq_true_iff.mpr (.inr (decide_eq_true large))
  apply Version.receive_elim (P := fun s => s.crashed = true)
  case refused =>
    intro _ full
    have := of_decide_eq_false full
    omega
  case urgent =>
    intro pkt _ pooled built
    have room : headerSize ≤ (Version.v2 cfg).buffSize msg := size ▸ Nat.le_add_right _ _
    obtain ⟨-, length⟩ := (preparePacket_holds room).append built
    have field : pkt.payloadLen.toNat = 6 + msg.data.length := by
      rw [length, UInt16.toNat_ofNat']
      simp only [List.nil_append, encodeAll_cons, encodeAll_nil, List.append_nil,
        SubPacket.length_encode]
      exact Nat.mod_eq_of_lt short
    have fits := pooled _ rfl
    rw [Packet.totalBytes, field] at fits
    omega
  case crash => exact fun _ _ _ => rfl
  case absent => exact fun later _ => absurd urgent (by rw [later]; exact Bool.false_ne_true)
  case located => exact fun _ later _ => absurd urgent (by rw [later]; exact Bool.false_ne_true)

end System

end SkyAccel.Aggregator
