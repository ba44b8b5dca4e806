import Mathlib.Data.Finset.Order
import SkyAccel.Aggregator.Books

/-!
# Finishing what is begun

In either version, `handleMsg` finishes the message in hand, and a `checkTimeout` that runs
late enough flushes every batch. So the sections lead by themselves to a state in which
nothing is left to flush (`Version.settle`), where every accepted record has been sent
(`Books.accepted_perm`).
-/

namespace SkyAccel.Aggregator

open Tunnel
open scoped List

/-- The sections by which a worker finishes what it has begun: no new message is taken,
and nothing is evicted. -/
def Event.settles : Event → Bool
  | .receive _ => false
  | e => !e.evicts

/-- No message is in hand, and nothing is left to flush. -/
structure State.Settled (s : State) : Prop where
  handler : s.handler = .idle
  timer : s.timer = .idle
  heap : s.heap.items = []

/-- What the goroutines need to go on: a crash has not happened, and no batch makes
`checkTimeout` panic. -/
structure Version.Ready (v : Version) (s : State) : Prop where
  timed : Timed s
  up : s.crashed = false
  flushable : ∀ batch ∈ s.mem, headerSize ≤ batch.pkt.buf.length ∧ v.Pooled batch.pkt

theorem evicts_of_settles {e : Event} (settles : e.settles = true) : e.evicts = false := by
  cases e <;> first | rfl | cases settles

section
variable {v : Version} {cfg : Config} {s s' : State} {e : Event}

/-! ## Steps and their events -/

theorem next_of_shared (shared : e.shared = true) (move : Step cfg s e s') :
    s.next cfg e = some s' := by
  cases move with
  | append up here hb => simp only [State.next, up, here, hb]; rfl
  | appendNew up here hb => simp only [State.next, up, here, hb]; rfl
  | push now up here hb untimed => simp [State.next, up, here, hb, untimed]
  | keep up here hb timed => simp [State.next, up, here, hb, timed]
  | finish up here hb => simp only [State.next, up, here, hb]; rfl
  | expire now up here => simp only [State.next, up, here]; rfl
  | flush up here => simp only [State.next, up, here]; rfl
  | _ => cases shared

theorem Version.next_shared (shared : e.shared = true) : v.next cfg s e = s.next cfg e := by
  cases up : s.crashed with
  | true => simp only [Version.next, State.next, up, if_true]
  | false =>
    cases e with
    | append | appendNew | push | unlock | expire | flush =>
      simp only [Version.next, up, Event.shared]
      rfl
    | _ => cases shared

theorem Version.next_of_step (move : v.Step cfg s e s') : v.next cfg s e = some s' := by
  cases move with
  | receive msg up idle => simp [Version.next, up, idle]
  | create times up here length => simp [Version.next, up, here, length]
  | openBatch time up here => simp [Version.next, up, here]
  | flushBatch up here free hb => simp [Version.next, up, here, free, hb]
  | shared shared move =>
    rw [Version.next_shared shared]
    exact next_of_shared shared move

theorem Version.Step.of_v1 (move : (Version.v1 cfg).Step cfg s e s') (plain : e.evicts = false) :
    Aggregator.Step cfg s e s' :=
  Aggregator.step_of_next cfg ((next_v1 plain).symm.trans (Version.next_of_step move))

/-! ## Finishing the message in hand -/

/-- How far `handleMsg` is from the end of its message. -/
def Handler.rank : Handler → Nat
  | .idle => 0
  | .pushed _ _ _ => 1
  | .appended _ _ => 2
  | .opened _ _ => 3
  | .full _ => 4
  | .located _ _ => 5
  | .absent _ => 6

theorem Version.Ready.handler_step (h : v.Ready s) (busy : s.handler ≠ .idle) :
    ∃ e s', e.settles = true ∧ v.Step cfg s e s' ∧ s'.handler.rank < s.handler.rank := by
  have found : ∀ b, s.handler.ref = some b → ∃ batch, s.mem[b]? = some batch := fun b ref =>
    ⟨_, List.getElem?_eq_getElem (h.timed.ref b ref)⟩
  cases here : s.handler with
  | idle => exact absurd here busy
  | absent t =>
    refine ⟨.create (List.replicate (batchNum cfg t.msg) 0), _, rfl,
      .create _ h.up here List.length_replicate, ?_⟩
    rcases s.createWith_handler t _ with idle | ⟨b, -, located⟩
    · rw [Version.create, idle]
      exact Nat.zero_lt_succ 5
    · rw [Version.create, located]
      exact Nat.lt_succ_self 5
  | located t b =>
    obtain ⟨batch, hb⟩ := found b (by rw [here]; rfl)
    refine ⟨.append, _, rfl, .shared rfl (.append h.up here hb), ?_⟩
    apply State.append_elim (P := fun s' => s'.handler.rank < 5)
    case full => exact Nat.lt_succ_self 4
    case record => exact fun pkt _ => Nat.lt_add_of_pos_right (Nat.zero_lt_succ 2)
  | full t => exact ⟨.openBatch 0, _, rfl, .openBatch 0 h.up here, Nat.lt_succ_self 3⟩
  | opened t b =>
    obtain ⟨batch, hb⟩ := found b (by rw [here]; rfl)
    refine ⟨.appendNew, _, rfl, .shared rfl (.appendNew h.up here hb), ?_⟩
    apply State.appendNew_elim (P := fun s' => s'.handler.rank < 3)
    case refused => exact Nat.lt_succ_self 2
    case record => exact fun pkt _ => Nat.lt_succ_self 2
  | appended t b =>
    obtain ⟨batch, hb⟩ := found b (by rw [here]; rfl)
    by_cases untimed : batch.heapItem = none
    · exact ⟨.push 0, _, rfl, .shared rfl (.push 0 h.up here hb untimed), Nat.lt_succ_self 1⟩
    · exact ⟨.unlock, _, rfl, .shared rfl (.keep h.up here hb untimed), Nat.zero_lt_succ 1⟩
  | pushed t b item =>
    obtain ⟨batch, hb⟩ := found b (by rw [here]; rfl)
    exact ⟨.unlock, _, rfl, .shared rfl (.finish h.up here hb), Nat.lt_succ_self 0⟩

/-! ## Flushing what is popped -/

def Timer.rank : Timer → Nat
  | .idle => 0
  | .flushing _ expired _ => expired.length + 1

instance (s : State) : Decidable s.Settled :=
  decidable_of_iff (s.handler = .idle ∧ s.timer.rank = 0 ∧ s.heap.items = []) <| by
    constructor
    · rintro ⟨handler, rank, heap⟩
      refine ⟨handler, ?_, heap⟩
      cases timer : s.timer with
      | idle => rfl
      | flushing now expired toSend =>
        rw [timer] at rank
        cases rank
    · rintro ⟨handler, timer, heap⟩
      exact ⟨handler, by rw [timer]; rfl, heap⟩

/-- A flush of a batch that does not make it panic. -/
theorem Version.flushBatch_fields {now : Int} {item : HeapItem} {rest : List HeapItem}
    {toSend : List SendInfo} {batch : Batch}
    (flushable : headerSize ≤ batch.pkt.buf.length ∧ v.Pooled batch.pkt) :
    (v.flushBatch s now item rest toSend batch).handler = s.handler ∧
      (v.flushBatch s now item rest toSend batch).heap = s.heap ∧
      (v.flushBatch s now item rest toSend batch).timer.rank = rest.length + 1 := by
  rw [Version.flushBatch, if_pos flushable]
  split <;> exact ⟨rfl, rfl, rfl⟩

theorem Version.Ready.timer_step (h : v.Ready s) (idle : s.handler = .idle) (busy : s.timer ≠ .idle) :
    ∃ e s', e.settles = true ∧ v.Step cfg s e s' ∧ s'.handler = .idle ∧ s'.heap = s.heap ∧
      s'.timer.rank < s.timer.rank := by
  cases timer : s.timer with
  | idle => exact absurd timer busy
  | flushing now expired toSend =>
    cases expired with
    | nil => exact ⟨.flush, _, rfl, .shared rfl (.flush h.up timer), idle, rfl, Nat.zero_lt_succ _⟩
    | cons item rest =>
      have inside : item.batch < s.mem.length := by
        apply h.timed.items
        rw [State.timers, timer]
        exact List.mem_append_right _ List.mem_cons_self
      have free : s.handler.locked ≠ some item.batch := by
        rw [idle]
        intro held
        cases held
      obtain ⟨handler, heap, rank⟩ := Version.flushBatch_fields (s := s) (v := v)
        (h.flushable _ (List.getElem_mem inside))
      refine ⟨.flushBatch, _, rfl, .flushBatch h.up timer free (List.getElem?_eq_getElem inside),
        handler.trans idle, heap, ?_⟩
      rw [rank]
      exact Nat.lt_succ_self _

/-- The sections lead to a state in which nothing is left to flush, and keep on the way what
each of them keeps. -/
theorem Version.settle {P : State → Prop}
    (keep : ∀ s e s', P s → e.settles = true → v.Step cfg s e s' → P s')
    (ready : ∀ s, P s → v.Ready s) (h : P s) :
    ∃ s', Run (v.Step cfg) (fun _ e => e.settles = true) s s' ∧ P s' ∧ s'.Settled := by
  -- alone, `checkTimeout` flushes the batches whose items it has popped
  have finish_timer : ∀ s, P s → s.handler = .idle →
      ∃ s', Run (v.Step cfg) (fun _ e => e.settles = true) s s' ∧
        (P s' ∧ s'.handler = .idle ∧ s'.heap = s.heap) ∧ s'.timer = .idle := by
    intro s h idle
    refine Run.reach (fun s => s.timer.rank) ?_ ⟨h, idle, rfl⟩
    rintro s₁ ⟨h, idle, heap⟩ busy
    obtain ⟨e, s', settles, move, idle', heap', less⟩ := (ready s₁ h).timer_step idle busy
    exact ⟨e, s', settles, move, ⟨keep _ _ _ h settles move, idle', heap'.trans heap⟩, less⟩
  obtain ⟨s₁, run₁, h₁, idle₁⟩ : ∃ s', Run (v.Step cfg) (fun _ e => e.settles = true) s s' ∧
      P s' ∧ s'.handler = .idle := by
    refine Run.reach (fun s => s.handler.rank) (fun s h busy => ?_) h
    obtain ⟨e, s', settles, move, less⟩ := (ready s h).handler_step busy
    exact ⟨e, s', settles, move, keep _ _ _ h settles move, less⟩
  obtain ⟨s₂, run₂, ⟨h₂, idle₂, -⟩, timer₂⟩ := finish_timer s₁ h₁ idle₁
  obtain ⟨now, late⟩ := (s₂.heap.items.map HeapItem.deadline).toFinset.exists_le
  have move : v.Step cfg s₂ (.expire now) (s₂.expire now) :=
    .shared rfl (.expire now (ready s₂ h₂).up timer₂)
  have empty : (s₂.expire now).heap.items = [] := by
    refine popExpired_all (le_refl _) fun item hitem => ?_
    exact late _ (List.mem_toFinset.mpr (List.mem_map_of_mem hitem))
  obtain ⟨s₃, run₃, ⟨h₃, idle₃, heap₃⟩, timer₃⟩ :=
    finish_timer (s₂.expire now) (keep _ _ _ h₂ rfl move) idle₂
  refine ⟨s₃, ?_, h₃, idle₃, timer₃, heap₃ ▸ empty⟩
  exact (run₁.trans run₂).trans (.trans (.single rfl move) run₃)

/-! ## What is sent in the end -/

/-- Without items there are no pending records. -/
theorem Timed.log_nil (h : Timed s) (idle : s.handler = .idle) (none : s.timers = []) :
    ∀ batch ∈ s.mem, batch.log = [] := by
  intro batch hb
  obtain ⟨b, inside, rfl⟩ := List.mem_iff_getElem.mp hb
  have cell := List.getElem?_eq_getElem inside
  have free : s.handler.locked ≠ some b := by
    rw [idle]
    exact nofun
  by_contra some
  have one := h.one b _ cell
  rw [none, List.filter_nil, State.itemOf_free free, List.nil_perm] at one
  exact (h.pending b _ cell some).resolve_right free (Option.toList_eq_nil_iff.mp one)

/-- In the end the frames have the accepted records. -/
theorem Books.accepted_perm (h : Books s) (timed : Timed s) (settled : s.Settled) :
    s.accepted ~ s.sent.flatMap SendInfo.log := by
  have none : s.timers = [] := by
    rw [State.timers, settled.heap, settled.timer]
    rfl
  have empty : s.mem.flatMap Batch.log = [] :=
    List.flatMap_eq_nil_iff.mpr (timed.log_nil settled.handler none)
  have frames : s.frames = s.sent := by
    rw [State.frames, settled.timer]
    exact List.append_nil _
  have once := h.once
  rw [empty, frames] at once
  exact once

end

end SkyAccel.Aggregator
