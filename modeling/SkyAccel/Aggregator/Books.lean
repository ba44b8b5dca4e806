import SkyAccel.Aggregator.Timed

/-!
# Where the accepted records are

`Books` accounts for the messages whose append succeeded: each stands once in the log
of one batch or of one frame, and the logs keep the order of the appends. Every step
keeps the books, evictions included.
-/

namespace SkyAccel.Aggregator

open scoped List

/-- The frames handed to `flush`, and those still to be. -/
def State.frames (s : State) : List SendInfo := s.sent ++ s.timer.toSend

/-- The message that `handleMsg` has not yet appended. -/
def Handler.waiting : Handler → List Ticket
  | .absent t => [t]
  | .located t _ => [t]
  | .full t => [t]
  | .opened t _ => [t]
  | _ => []

structure Books (s : State) : Prop where
  once : s.accepted ~ s.mem.flatMap Batch.log ++ s.frames.flatMap SendInfo.log
  pending : ∀ batch ∈ s.mem, batch.log <+ s.accepted
  flushed : ∀ f ∈ s.frames, f.log <+ s.accepted
  distinct : ((s.handler.waiting ++ s.accepted).map Ticket.seq).Nodup
  seen : ∀ t ∈ s.handler.waiting ++ s.accepted, t.seq < s.seq

section
variable {cfg : Config} {s s' : State}

/-- Steps that append nothing keep the logs, up to those of new batches. -/
theorem Books.mono {n : Nat} (h : Books s)
    (mem : s'.mem.map Batch.log = s.mem.map Batch.log ++ List.replicate n [])
    (frames : s'.frames ~ s.frames) (accepted : s'.accepted = s.accepted) (seq : s'.seq = s.seq)
    (waiting : s'.handler.waiting <+ s.handler.waiting) : Books s' := by
  have logs : s'.mem.flatMap Batch.log = s.mem.flatMap Batch.log := by
    rw [List.flatMap_def, mem, List.flatten_append, List.flatten_replicate_nil, List.append_nil,
      List.flatMap_def]
  have less : s'.handler.waiting ++ s'.accepted <+ s.handler.waiting ++ s.accepted := by
    rw [accepted]
    exact waiting.append_right _
  constructor
  · rw [accepted, logs]
    exact h.once.trans ((frames.flatMap_right _).symm.append_left _)
  · intro batch hb
    have listed := List.mem_map_of_mem (f := Batch.log) hb
    rw [mem] at listed
    rw [accepted]
    rcases List.mem_append.mp listed with listed | listed
    · obtain ⟨old, hold, same⟩ := List.mem_map.mp listed
      exact same ▸ h.pending old hold
    · rw [List.eq_of_mem_replicate listed]
      exact List.nil_sublist _
  · rw [accepted]
    exact fun f hf => h.flushed f (frames.mem_iff.mp hf)
  · exact h.distinct.sublist (less.map _)
  · intro t ht
    rw [seq]
    exact h.seen t (less.subset ht)

/-- A record that is accepted joins one log, at its end. -/
theorem Books.accept (h : Books s) {t : Ticket} (accepted : s'.accepted = s.accepted ++ [t])
    (once : s'.mem.flatMap Batch.log ++ s'.frames.flatMap SendInfo.log ~
      t :: (s.mem.flatMap Batch.log ++ s.frames.flatMap SendInfo.log))
    (pending : ∀ batch ∈ s'.mem, batch ∈ s.mem ∨ ∃ old ∈ s.mem, batch.log = old.log ++ [t])
    (flushed : ∀ f ∈ s'.frames, f ∈ s.frames ∨ f.log = [t]) (waiting : s'.handler.waiting = [])
    (distinct : ((t :: s.accepted).map Ticket.seq).Nodup)
    (seen : ∀ x ∈ t :: s.accepted, x.seq < s'.seq) : Books s' := by
  have perm : s.accepted ++ [t] ~ t :: s.accepted := List.perm_append_singleton _ _
  have grows : s.accepted <+ s.accepted ++ [t] := List.sublist_append_left _ _
  constructor
  · rw [accepted]
    exact (perm.trans (h.once.cons t)).trans once.symm
  · intro batch hb
    rw [accepted]
    rcases pending batch hb with hb | ⟨old, hold, same⟩
    · exact (h.pending batch hb).trans grows
    · rw [same]
      exact (h.pending old hold).append_right _
  · intro f hf
    rw [accepted]
    rcases flushed f hf with hf | same
    · exact (h.flushed f hf).trans grows
    · rw [same]
      exact List.sublist_append_right _ _
  · rw [waiting, accepted, List.nil_append]
    exact (perm.map _).nodup_iff.mpr distinct
  · rw [waiting, accepted, List.nil_append]
    exact fun x hx => seen x (perm.mem_iff.mp hx)

/-- The frames after one more was handed to `flush` for an urgent message. -/
theorem State.mem_frames_urgent {sent : List SendInfo} {f new : SendInfo}
    (hf : f ∈ sent ++ [new] ++ s.timer.toSend) : f ∈ sent ++ s.timer.toSend ∨ f = new := by
  simp only [List.mem_append, List.mem_singleton] at hf ⊢
  rcases hf with (hf | same) | hf
  · exact .inl (.inl hf)
  · exact .inr same
  · exact .inl (.inr hf)

theorem Books.received (h : Books s) (idle : s.handler = .idle) {msg : AggregatorMsg}
    (received : Received s msg s') : Books s' := by
  have nobody : s.handler.waiting = [] := by
    rw [idle]
    rfl
  have seen : ∀ t ∈ s.accepted, t.seq < s.seq := by
    intro t ht
    exact h.seen t (by rw [nobody]; exact ht)
  have distinct : (s.accepted.map Ticket.seq).Nodup := by
    have := h.distinct
    rwa [nobody] at this
  have new : s.seq ∉ s.accepted.map Ticket.seq := by
    intro listed
    obtain ⟨t, ht, same⟩ := List.mem_map.mp listed
    exact absurd (seen t ht) (by omega)
  have later : ∀ t ∈ ⟨s.seq, msg⟩ :: s.accepted, t.seq < s.seq + 1 := by
    intro t ht
    rcases List.mem_cons.mp ht with rfl | ht
    · exact Nat.lt_succ_self _
    · exact (seen t ht).trans (Nat.lt_succ_self _)
  -- a message that waits for its batch
  have waits : ∀ handler, handler.waiting = [⟨s.seq, msg⟩] →
      Books { s with seq := s.seq + 1, handler := handler } := by
    intro handler waiting
    refine ⟨h.once, h.pending, h.flushed, ?_, ?_⟩
    · rw [waiting]
      exact List.nodup_cons.mpr ⟨new, distinct⟩
    · rw [waiting]
      exact later
  cases received with
  | refused =>
    refine ⟨h.once, h.pending, h.flushed, h.distinct, fun t ht => ?_⟩
    exact (h.seen t ht).trans (Nat.lt_succ_self _)
  | urgent p =>
    refine h.accept (t := ⟨s.seq, msg⟩) rfl ?_ (fun _ => .inl) ?_ nobody
      (List.nodup_cons.mpr ⟨new, distinct⟩) later
    · simp only [State.frames, List.flatMap_append, List.flatMap_singleton, List.append_assoc]
      rw [← List.append_assoc, ← List.append_assoc (s.mem.flatMap _)]
      exact List.perm_middle
    · intro f hf
      rcases State.mem_frames_urgent hf with hf | rfl
      · exact .inl hf
      · exact .inr rfl
  | absent _ => exact waits _ rfl
  | located _ => exact waits _ rfl

theorem Books.createWith (h : Books s) {t : Ticket} (absent : s.handler = .absent t)
    {news : List Batch} (new : ∀ batch ∈ news, batch.log = []) : Books (s.createWith t news) := by
  refine h.mono (n := news.length) ?_ (.refl _) rfl rfl ?_
  · rw [State.createWith, List.map_append, List.append_cancel_left_eq, List.eq_replicate_iff]
    refine ⟨List.length_map _, fun log hlog => ?_⟩
    obtain ⟨batch, hb, rfl⟩ := List.mem_map.mp hlog
    exact new batch hb
  · rw [absent]
    rcases s.createWith_handler t news with idle | ⟨b, -, located⟩
    · rw [idle]
      exact List.nil_sublist _
    · rw [located]
      exact List.Sublist.refl _

theorem Books.openWith (h : Books s) {t : Ticket} (full : s.handler = .full t) {new : Batch}
    (fresh : new.log = []) : Books (s.openWith t new) := by
  refine h.mono (n := 1) (by simp [State.openWith, fresh]) (.refl _) rfl rfl ?_
  rw [full]
  exact List.Sublist.refl _

theorem Books.record (h : Books s) {t : Ticket} {b : Nat} {batch : Batch} {pkt : Tunnel.Packet}
    (waiting : s.handler.waiting = [t]) (hb : s.mem[b]? = some batch) :
    Books { s with
      mem := s.mem.set b (batch.record pkt t)
      handler := .appended t b
      accepted := s.accepted ++ [t] } := by
  refine h.accept (t := t) rfl ?_ ?_ (fun _ => .inl) rfl ?_ ?_
  · have moved := Store.flatMap_set_perm hb (batch.record pkt t) Batch.log
    have one : (s.mem.set b (batch.record pkt t)).flatMap Batch.log ~
        t :: s.mem.flatMap Batch.log := by
      refine (List.perm_append_left_iff batch.log).mp (moved.trans ?_)
      rw [Batch.record, List.append_assoc]
      exact .refl _
    exact one.append_right _
  · intro x hx
    rcases List.mem_or_eq_of_mem_set hx with hx | rfl
    · exact .inl hx
    · exact .inr ⟨batch, List.mem_of_getElem? hb, rfl⟩
  · have := h.distinct
    rwa [waiting] at this
  · have := h.seen
    rwa [waiting] at this

theorem Books.append (h : Books s) {t : Ticket} {b : Nat} {batch : Batch}
    (located : s.handler = .located t b) (hb : s.mem[b]? = some batch) :
    Books (s.append t b batch) := by
  have full : Books { s with handler := .full t } := by
    refine h.mono (n := 0) (by simp) (.refl _) rfl rfl ?_
    rw [located]
    exact List.Sublist.refl _
  apply State.append_elim
  case full => exact full
  case record => exact fun pkt _ => h.record (by rw [located]; rfl) hb

theorem Books.appendNew (h : Books s) {t : Ticket} {b : Nat} {batch : Batch}
    (opened : s.handler = .opened t b) (hb : s.mem[b]? = some batch) :
    Books (s.appendNew t b batch) := by
  apply State.appendNew_elim
  case refused => exact h.mono (n := 0) (by simp) (.refl _) rfl rfl (List.nil_sublist _)
  case record => exact fun pkt _ => h.record (by rw [opened]; rfl) hb

theorem State.frames_flushBatch {now : Int} {item : HeapItem} {rest : List HeapItem}
    {toSend : List SendInfo} (timer : s.timer = .flushing now (item :: rest) toSend)
    (batch : Batch) :
    (s.flushBatch now item rest toSend batch).frames = s.frames ++ [batch.sendInfo] := by
  rw [State.frames, State.frames, timer]
  exact (List.append_assoc _ _ _).symm

theorem State.frames_flush {now : Int} {toSend : List SendInfo}
    (done : s.timer = .flushing now [] toSend) : (s.flush toSend).frames = s.frames := by
  rw [State.frames, State.frames, done]
  exact List.append_nil _

theorem State.frames_expire (idle : s.timer = .idle) (now : Int) :
    (s.expire now).frames = s.frames := by
  rw [State.frames, State.frames, idle]
  rfl

theorem Books.flushBatch (h : Books s) {now : Int} {item : HeapItem} {rest : List HeapItem}
    {toSend : List SendInfo} {batch : Batch} (timer : s.timer = .flushing now (item :: rest) toSend)
    (hb : s.mem[item.batch]? = some batch) : Books (s.flushBatch now item rest toSend batch) := by
  have frames := State.frames_flushBatch timer batch
  have own := h.pending batch (List.mem_of_getElem? hb)
  constructor
  · have moved := Store.flatMap_set_perm hb (batch.reset now) Batch.log
    rw [frames, List.flatMap_append, List.flatMap_singleton]
    refine (h.once.trans (moved.symm.append_right _)).trans ?_
    rw [List.append_assoc]
    refine List.perm_append_comm.trans ?_
    rw [List.append_assoc]
    exact .refl _
  · intro x hx
    rcases List.mem_or_eq_of_mem_set hx with hx | rfl
    · exact h.pending x hx
    · exact List.nil_sublist _
  · intro f hf
    rw [frames] at hf
    rcases List.mem_append.mp hf with hf | hf
    · exact h.flushed f hf
    · rw [List.mem_singleton.mp hf]
      exact own
  · exact h.distinct
  · exact h.seen

theorem Books.step (h : Books s) {e : Event} (move : Step cfg s e s') : Books s' := by
  cases move with
  | receive msg _ idle => exact h.received idle (State.receive_received cfg s msg)
  | create times _ absent _ =>
    rw [create_eq]
    exact h.createWith absent fun batch hb => (fresh_of_map (fun _ => ⟨rfl, rfl⟩) batch hb).2
  | append _ located hb => exact h.append located hb
  | openBatch time _ full => exact h.openWith full rfl
  | appendNew _ opened hb => exact h.appendNew opened hb
  | push now _ appended _ _ =>
    exact h.mono (n := 0) (by simp [State.push]) (.refl _) rfl rfl (List.nil_sublist _)
  | keep _ _ _ _ => exact h.mono (n := 0) (by simp) (.refl _) rfl rfl (List.nil_sublist _)
  | finish _ _ hb =>
    refine h.mono (n := 0) ?_ (.refl _) rfl rfl (List.nil_sublist _)
    rw [List.replicate_zero, List.append_nil]
    exact Store.map_set hb rfl
  | expire now _ idle =>
    exact h.mono (n := 0) (by simp [State.expire]) (.of_eq (State.frames_expire idle now)) rfl rfl
      (List.Sublist.refl _)
  | flushBatch _ timer _ hb _ => exact h.flushBatch timer hb
  | flush _ done =>
    exact h.mono (n := 0) (by simp [State.flush]) (.of_eq (State.frames_flush done)) rfl rfl
      (List.Sublist.refl _)
  | evict _ _ =>
    apply State.evict_elim
    case crash => exact fun _ => ⟨h.once, h.pending, h.flushed, h.distinct, h.seen⟩
    case gone => exact fun heap _ => ⟨h.once, h.pending, h.flushed, h.distinct, h.seen⟩
  | shortBuffer | snapshot | done | visit | readTime | fresh =>
    exact ⟨h.once, h.pending, h.flushed, h.distinct, h.seen⟩

theorem Books.accepted_nodup (h : Books s) : s.accepted.Nodup := by
  have distinct := h.distinct
  rw [List.map_append] at distinct
  exact (List.nodup_append.mp distinct).2.1.of_map

/-- What is pending has not left. -/
theorem Books.not_flushed (h : Books s) {batch : Batch} (hb : batch ∈ s.mem) {t : Ticket}
    (ht : t ∈ batch.log) : ∀ f ∈ s.frames, t ∉ f.log := by
  intro f hf ht'
  have apart := (List.nodup_append.mp (h.once.nodup_iff.mp h.accepted_nodup)).2.2
  exact apart t (List.mem_flatMap.mpr ⟨batch, hb, ht⟩) t (List.mem_flatMap.mpr ⟨f, hf, ht'⟩) rfl

theorem Books.init : Books State.init :=
  ⟨.nil, nofun, nofun, List.nodup_nil, nofun⟩

end

end SkyAccel.Aggregator
