import SkyAccel.Aggregator.ExactlyOnce
import SkyAccel.Aggregator.Progress

/-!
# What eviction loses

With buffers that hold the header, and as long as no eviction deletes a key of which a
batch has an item, the worker never crashes and can send every accepted record by itself:
`handleMsg` finishes its message, and a `checkTimeout` that runs late enough flushes
everything (`nothingLost`). An eviction that takes away the item of a batch with pending
records leaves it `Stranded`, and no later step sends them.
-/

namespace SkyAccel.Aggregator

open Tunnel
open scoped List

/-- The worker runs, and by itself it can still send every record it has accepted. -/
structure NothingLost (cfg : Config) (s : State) : Prop where
  up : s.crashed = false
  flushed : ∀ t ∈ s.accepted, ∃ s', Run (Step cfg) (fun _ e => e.settles = true) s s' ∧
    ∃ f ∈ s'.sent, t ∈ f.log

structure Live (cfg : Config) (s : State) : Prop where
  sound : Sound cfg s
  up : s.crashed = false

section
variable {cfg : Config} {s s' : State} (room : headerSize ≤ cfg.bufferSize)

theorem untimed_of_settles {e : Event} (settles : e.settles = true) : EvictsUntimed s e := by
  rintro rfl
  cases settles

include room

theorem Sound.header_fits (h : Sound cfg s) {batch : Batch} (hb : batch ∈ s.mem) :
    headerSize ≤ batch.pkt.buf.length := by
  have holds := h.written.holds room batch hb
  rw [holds.size]
  exact holds.room

theorem Live.step (h : Live cfg s) {e : Event} (untimed : EvictsUntimed s e)
    (move : Step cfg s e s') : Live cfg s' := by
  refine ⟨h.sound.step room untimed move, ?_⟩
  cases move with
  | receive msg up _ =>
    exact State.receive_elim (P := fun s => s.crashed = false) up (fun _ _ _ => up)
      (fun _ _ => up) (fun _ _ _ => up)
  | append up _ _ => exact State.append_elim (P := fun s => s.crashed = false) up fun _ _ => up
  | appendNew up _ _ =>
    exact State.appendNew_elim (P := fun s => s.crashed = false) up fun _ _ => up
  | evict up checking =>
    rw [State.evict, removeItems_untimed s.heap (untimed rfl _ _ _ _ checking)]
    exact up
  | shortBuffer _ _ _ hb short =>
    exact absurd short (not_lt.mpr (h.sound.header_fits room (List.mem_of_getElem? hb)))
  | _ => exact h.up

/-- From every live state the worker reaches one in which nothing is left to flush. -/
theorem Live.settle (h : Live cfg s) :
    ∃ s', Run (Step cfg) (fun _ e => e.settles = true) s s' ∧ Live cfg s' ∧ s'.Settled := by
  have move : ∀ s e s', e.settles = true → (Version.v1 cfg).Step cfg s e s' → Step cfg s e s' :=
    fun s e s' settles move => move.of_v1 (evicts_of_settles settles)
  obtain ⟨s', run, live, settled⟩ := Version.settle (v := Version.v1 cfg) (P := Live cfg)
    (fun s e s' h settles m => h.step room (untimed_of_settles settles) (move s e s' settles m))
    (fun s h => ⟨h.sound.timed, h.up, fun batch hb =>
      ⟨h.sound.header_fits room hb, pooled_v1 cfg batch.pkt⟩⟩) h
  exact ⟨s', run.imp move, live, settled⟩

omit room

theorem Sound.all_sent (h : Sound cfg s) (settled : s.Settled) {t : Ticket} (ht : t ∈ s.accepted) :
    ∃ f ∈ s.sent, t ∈ f.log :=
  List.mem_flatMap.mp ((h.books.accepted_perm h.timed settled).mem_iff.mp ht)

theorem Step.accepted_subset {e : Event} (move : Step cfg s e s') : s.accepted ⊆ s'.accepted := by
  cases move with
  | receive msg _ _ =>
    apply State.receive_elim (P := fun s' => s.accepted ⊆ s'.accepted)
    case urgent => exact fun p _ _ => List.subset_append_left _ _
    all_goals intros; exact List.Subset.refl _
  | append _ _ _ =>
    apply State.append_elim (P := fun s' => s.accepted ⊆ s'.accepted)
    case full => exact List.Subset.refl _
    case record => exact fun pkt _ => List.subset_append_left _ _
  | appendNew _ _ _ =>
    apply State.appendNew_elim (P := fun s' => s.accepted ⊆ s'.accepted)
    case refused => exact List.Subset.refl _
    case record => exact fun pkt _ => List.subset_append_left _ _
  | evict _ _ =>
    apply State.evict_elim (P := fun s' => s.accepted ⊆ s'.accepted)
    case crash => exact fun _ => List.Subset.refl _
    case gone => exact fun heap _ => List.Subset.refl _
  | _ => exact List.Subset.refl _

end

theorem nothingLost {cfg : Config} (room : headerSize ≤ cfg.bufferSize) {s : State}
    (run : Run (Step cfg) EvictsUntimed State.init s) : NothingLost cfg s := by
  have live : Live cfg s := run.invariant (fun s e s' h untimed move => h.step room untimed move)
    ⟨sound_of_run room .start, rfl⟩
  refine ⟨live.up, fun t ht => ?_⟩
  obtain ⟨s', run', live', settled⟩ := live.settle room
  have kept : t ∈ s'.accepted := run'.invariant (P := fun s => t ∈ s.accepted)
    (fun s e s' h _ move => move.accepted_subset h) ht
  exact ⟨s', run', live'.sound.all_sent settled kept⟩

/-- A record accepted by a batch that was evicted between the moment `handleMsg` found it
and the append. -/
theorem nothingLost_evicted_in_hand :
    ∃ s₁ s, State.init.execute shipped [.receive (request 80 7), .create [0], .append, .push 0,
        .unlock, .expire 60000000, .flushBatch, .flush, .receive (request 80 9),
        .snapshot 61000000000, .visit, .readTime] = some s₁ ∧
      s₁.execute shipped [.evict, .append, .push 61000000000, .unlock] = some s ∧
      s.batches = [] ∧ s.accepted = [⟨0, request 80 7⟩, ⟨1, request 80 9⟩] ∧
      NothingLost shipped s := by
  have ran : ((State.init.execute shipped [.receive (request 80 7), .create [0], .append, .push 0,
      .unlock, .expire 60000000, .flushBatch, .flush, .receive (request 80 9),
      .snapshot 61000000000, .visit, .readTime]).bind fun s₁ =>
        (s₁.execute shipped [.evict, .append, .push 61000000000, .unlock]).map fun s =>
          (s₁.mem.map Batch.heapItem, s.batches, s.accepted)) =
      some ([none], [], [⟨0, request 80 7⟩, ⟨1, request 80 9⟩]) := by
    decide +kernel
  obtain ⟨s₁, before, ran⟩ := Option.bind_eq_some_iff.mp ran
  obtain ⟨s, after, seen⟩ := Option.map_eq_some_iff.mp ran
  obtain ⟨items, seen⟩ := Prod.mk.inj seen
  obtain ⟨batches, accepted⟩ := Prod.mk.inj seen
  obtain ⟨s₂, evicted, rest⟩ := execute_cons shipped after
  have untimed : EvictsUntimed s₁ .evict := by
    intro _ now key v todo _ b _ batch hb
    have listed := List.mem_map_of_mem (f := Batch.heapItem) (List.mem_of_getElem? hb)
    rw [items] at listed
    exact List.mem_singleton.mp listed
  refine ⟨s₁, s, before, after, batches, accepted, nothingLost (by decide) (((run_of_execute shipped
    before ?_).next untimed (step_of_next shipped evicted)).trans (run_of_execute shipped rest ?_))⟩
  · simp [EvictsUntimed]
  · simp [EvictsUntimed]

/-! ## What an eviction leaves behind -/

/-- No goroutine can come back to batch `b`. -/
structure Stranded (b : Nat) (batch : Batch) (s : State) : Prop where
  cell : s.mem[b]? = some batch
  timers : ∀ item ∈ s.timers, item.batch ≠ b
  keys : ∀ kv ∈ s.batches, b ∉ kv.2
  ref : s.handler.ref ≠ some b

section
variable {cfg : Config} {s s' : State} {b : Nat} {batch : Batch}

theorem removeItems_subset {mem : List Batch} {h h' : MinHeap} {v : List Nat}
    (removed : State.removeItems mem h v = some h') : h'.items ⊆ h.items := by
  induction v generalizing h with
  | nil =>
    obtain rfl := Option.some.inj removed
    exact List.Subset.refl _
  | cons b v ih =>
    rw [State.removeItems] at removed
    split at removed
    · exact ih removed
    · split at removed
      · cases removed
      · rename_i taken
        intro item hitem
        exact (remove_items taken).mem_iff.mpr (List.mem_cons_of_mem _ (ih removed hitem))

theorem Stranded.bList (h : Stranded b batch s) (key : String) : b ∉ s.bList key :=
  fun listed => Store.mem_lookup_getD (P := (· ≠ b))
    (fun kv hkv _ hb same => h.keys kv hkv (same ▸ hb)) listed rfl

theorem Stranded.ne_of_ref (h : Stranded b batch s) {b' : Nat} (ref : s.handler.ref = some b') :
    b' ≠ b := by
  rintro rfl
  exact h.ref ref

/-- Another batch is written. -/
theorem Stranded.cell_set (h : Stranded b batch s) {b' : Nat} {old : Batch}
    (hb : s.mem[b']? = some old) (other : b' ≠ b) (new : Batch) :
    (s.mem.set b' new)[b]? = some batch := by
  rw [Store.getElem?_set hb, if_neg (Ne.symm other)]
  exact h.cell

theorem Stranded.cell_append (h : Stranded b batch s) (news : List Batch) :
    (s.mem ++ news)[b]? = some batch := by
  rw [List.getElem?_append_left (Store.lt_of_some h.cell)]
  exact h.cell

theorem Stranded.record (h : Stranded b batch s) {t : Ticket} {b' : Nat} {old : Batch}
    {pkt : Packet} (hb : s.mem[b']? = some old) (other : b' ≠ b) :
    Stranded b batch { s with
      mem := s.mem.set b' (old.record pkt t)
      handler := .appended t b'
      accepted := s.accepted ++ [t] } :=
  ⟨h.cell_set hb other _, h.timers, h.keys, fun ref => other (Option.some.inj ref)⟩

theorem Stranded.create (h : Stranded b batch s) (t : Ticket) (times : List Int) :
    Stranded b batch (s.create cfg t times) := by
  have keys : ∀ kv ∈ s.putNew t.msg.routingKey times.length, b ∉ kv.2 := by
    intro kv hkv
    unfold State.putNew at hkv
    split at hkv
    · exact h.keys kv hkv
    · rcases List.mem_cons.mp hkv with rfl | hkv
      · intro new
        exact absurd (Store.lt_of_some h.cell) (Nat.not_lt.mpr (List.mem_range'_1.mp new).1)
      · exact h.keys kv hkv
  refine ⟨h.cell_append _, h.timers, keys, ?_⟩
  rcases s.create_handler cfg t times with idle | ⟨b', chosen, located⟩
  · rw [idle]
    exact nofun
  · rw [located]
    rintro ⟨⟩
    exact Store.mem_lookup_getD (P := (· ≠ b))
      (fun kv hkv _ hb same => keys kv hkv (same ▸ hb)) chosen rfl

theorem Stranded.step (h : Stranded b batch s) {e : Event} (move : Step cfg s e s') :
    Stranded b batch s' := by
  cases move with
  | receive msg _ idle =>
    apply State.receive_elim
    case refused => exact ⟨h.cell, h.timers, h.keys, h.ref⟩
    case urgent => exact fun p _ _ => ⟨h.cell, h.timers, h.keys, h.ref⟩
    case absent => exact fun _ _ => ⟨h.cell, h.timers, h.keys, nofun⟩
    case located =>
      intro b' _ found
      refine ⟨h.cell, h.timers, h.keys, ?_⟩
      rintro ⟨⟩
      exact h.bList _ (pick_mem found)
  | create times _ _ _ => exact h.create _ times
  | @append t b' old _ located hb =>
    have other := h.ne_of_ref (by rw [located]; rfl)
    apply State.append_elim
    case full => exact ⟨h.cell, h.timers, h.keys, nofun⟩
    case record => exact fun pkt _ => h.record hb other
  | @openBatch t time _ full =>
    have inside := Store.lt_of_some h.cell
    refine ⟨h.cell_append _, h.timers, ?_, fun ref => Nat.ne_of_gt inside (Option.some.inj ref)⟩
    intro kv hkv
    rcases List.mem_cons.mp hkv with rfl | hkv
    · intro listed
      rcases List.mem_append.mp listed with listed | listed
      · exact h.bList _ listed
      · exact Nat.ne_of_lt inside (List.mem_singleton.mp listed)
    · exact h.keys kv (List.mem_of_mem_filter hkv)
  | @appendNew t b' old _ opened hb =>
    have other := h.ne_of_ref (by rw [opened]; rfl)
    apply State.appendNew_elim
    case refused => exact ⟨h.cell, h.timers, h.keys, fun ref => other (Option.some.inj ref)⟩
    case record => exact fun pkt _ => h.record hb other
  | @push t b' old now _ appended hb _ =>
    have other := h.ne_of_ref (by rw [appended]; rfl)
    refine ⟨h.cell, ?_, h.keys, fun ref => other (Option.some.inj ref)⟩
    intro item hitem
    rcases List.mem_append.mp hitem with hitem | hitem
    · rcases List.mem_cons.mp ((push_items _ _).mem_iff.mp hitem) with rfl | hitem
      · exact other
      · exact h.timers item (List.mem_append_left _ hitem)
    · exact h.timers item (List.mem_append_right _ hitem)
  | keep _ _ _ _ => exact ⟨h.cell, h.timers, h.keys, nofun⟩
  | @finish t b' item old _ pushed hb =>
    have other := h.ne_of_ref (by rw [pushed]; rfl)
    exact ⟨h.cell_set hb other _, h.timers, h.keys, nofun⟩
  | expire now _ idle =>
    refine ⟨h.cell, fun item hitem => h.timers item ?_, h.keys, h.ref⟩
    exact List.mem_append_left _ ((popExpired_perm now s.heap.items.length s.heap).mem_iff.mpr hitem)
  | @flushBatch now item rest toSend old _ timer _ hb _ =>
    have popped : ∀ it ∈ item :: rest, it ∈ s.timers := by
      intro it hit
      rw [State.timers, timer]
      exact List.mem_append_right _ hit
    have other := h.timers item (popped item List.mem_cons_self)
    refine ⟨h.cell_set hb other _, fun it hit => h.timers it ?_, h.keys, h.ref⟩
    rcases List.mem_append.mp hit with hit | hit
    · exact List.mem_append_left _ hit
    · exact popped it (List.mem_cons_of_mem _ hit)
  | flush _ _ =>
    refine ⟨h.cell, fun item hitem => h.timers item ?_, h.keys, h.ref⟩
    rcases List.mem_append.mp hitem with hitem | hitem
    · exact List.mem_append_left _ hitem
    · cases hitem
  | @evict now key v todo _ _ =>
    apply State.evict_elim
    case crash => exact fun _ => ⟨h.cell, h.timers, h.keys, h.ref⟩
    case gone =>
      intro heap removed
      refine ⟨h.cell, fun item hitem => h.timers item ?_,
        fun kv hkv => h.keys kv (List.mem_of_mem_filter hkv), h.ref⟩
      rcases List.mem_append.mp hitem with hitem | hitem
      · exact List.mem_append_left _ (removeItems_subset removed hitem)
      · exact List.mem_append_right _ hitem
  | shortBuffer | snapshot | done | visit | readTime | fresh =>
    exact ⟨h.cell, h.timers, h.keys, h.ref⟩

/-- The records of a stranded batch never leave, whatever the worker does. -/
theorem Stranded.never_sent (h : Stranded b batch s) (books : Books s) {ok : State → Event → Prop}
    (run : Run (Step cfg) ok s s') {t : Ticket} (ht : t ∈ batch.log) :
    ∀ f ∈ s'.sent, t ∉ f.log := by
  have still : Stranded b batch s' := run.invariant (fun s e s' h _ move => h.step move) h
  have books' : Books s' := run.invariant (fun s e s' h _ move => h.step move) books
  exact fun f hf => books'.not_flushed (List.mem_of_getElem? still.cell) ht f
    (List.mem_append_left _ hf)

end

/-- A request that joins a batch opened a minute earlier, just before the batch is
evicted, is accepted and never sent. -/
theorem evicted_request_lost :
    ∃ s, State.init.execute shipped [.receive (request 80 7), .create [0], .append, .push 0, .unlock,
        .expire 60000000, .flushBatch, .flush, .receive (request 80 9), .append, .push 61000000000,
        .unlock, .snapshot 61000000000, .visit, .readTime, .evict] = some s ∧
      Run (Step shipped) (fun _ _ => True) State.init s ∧ ⟨1, request 80 9⟩ ∈ s.accepted ∧
      (∀ s', Run (Step shipped) (fun _ _ => True) s s' →
        ∀ f ∈ s'.sent, ⟨1, request 80 9⟩ ∉ f.log) ∧ ¬ NothingLost shipped s := by
  have ran : (State.init.execute shipped [.receive (request 80 7), .create [0], .append, .push 0,
      .unlock, .expire 60000000, .flushBatch, .flush, .receive (request 80 9), .append,
      .push 61000000000, .unlock, .snapshot 61000000000, .visit, .readTime, .evict]).map
        (fun s => (s.mem.map Batch.log, s.timers.length, s.batches.length, s.handler.ref)) =
      some ([[⟨1, request 80 9⟩]], 0, 0, none) := by
    decide +kernel
  obtain ⟨s, ran, seen⟩ := Option.map_eq_some_iff.mp ran
  obtain ⟨logs, seen⟩ := Prod.mk.inj seen
  obtain ⟨timers, seen⟩ := Prod.mk.inj seen
  obtain ⟨batches, ref⟩ := Prod.mk.inj seen
  obtain ⟨batch, mem, log⟩ := List.map_eq_singleton_iff.mp logs
  have run : Run (Step shipped) (fun _ _ => True) State.init s :=
    run_of_execute shipped ran fun _ _ _ => trivial
  have books : Books s := run.invariant (fun s e s' h _ move => h.step move) Books.init
  have stranded : Stranded 0 batch s := by
    refine ⟨by rw [mem]; rfl, ?_, ?_, by rw [ref]; exact nofun⟩
    · rw [List.eq_nil_of_length_eq_zero timers]
      exact nofun
    · rw [List.eq_nil_of_length_eq_zero batches]
      exact nofun
  have pending : ⟨1, request 80 9⟩ ∈ batch.log := by
    rw [log]
    exact List.mem_singleton_self _
  have accepted : ⟨1, request 80 9⟩ ∈ s.accepted :=
    (books.pending batch (by rw [mem]; exact List.mem_singleton_self _)).subset pending
  refine ⟨s, ran, run, accepted, fun s' later => stranded.never_sent books later pending, ?_⟩
  intro nothingLost
  obtain ⟨s', settled, f, hf, sent⟩ := nothingLost.flushed _ accepted
  exact stranded.never_sent books settled pending f hf sent

end SkyAccel.Aggregator
