import SkyAccel.Lib.WorkQueue
import SkyAccel.Control.Probing

/-!
# Rounds of probes

`StartProbePeriodically` asks for the targets and lets `doProbeLossRTT` probe them: workers
take the targets from a channel without a buffer, each appends its result, and when all of
them have ended the results are filed. However the workers take turns, a round has one result
for each of its targets, and `latestResults` has for each IP the result of a target of the last
round that probed it (`latest_of_rounds`). A result whose target is no longer probed stays.
-/

namespace SkyAccel.Control

open scoped List

/-- The variables of `doProbeLossRTT`; `todo` are the targets not yet put on `jobs`. -/
structure Round where
  targets : List ProbeTask
  todo : List ProbeTask
  jobs : WorkQueue ProbeTask
  roundResults : List Result

/-- `rounds` are the targets and the results of those that are over. -/
structure Prober where
  concurrency : Nat
  attempts : Nat
  round : Option Round
  latestResults : LatestResults
  rounds : List (List ProbeTask × List Result)

/-- `tasks` is what `GetProbeTasks` returns, or `none` for an error. -/
inductive ProberEvent
  | tick (tasks : Option (List ProbeTask))
  | job (i : Nat)
  | close
  | probe (i : Nat) (dials : List Dial)
  | leave (i : Nat)
  | wait

def ProberEvent.ticks : ProberEvent → Bool
  | .tick _ => true
  | _ => false

namespace Round

def start (concurrency : Nat) (targets : List ProbeTask) : Round :=
  ⟨targets, targets, .init ProbeTask 0 concurrency, []⟩

/-- The goroutine that feeds the workers, and the workers. -/
def next (attempts : Nat) (r : Round) : ProberEvent → Option Round
  | .job i =>
    match r.todo with
    | t :: todo => (r.jobs.next (.hand i t)).map fun jobs => { r with todo := todo, jobs := jobs }
    | [] => none
  | .close =>
    match r.todo with
    | [] => (r.jobs.next .close).map fun jobs => { r with jobs := jobs }
    | _ => none
  | .probe i dials =>
    match r.jobs.workers[i]? with
    | some (.busy target) =>
      if dials.length = attempts then
        (r.jobs.next (.finish i)).map fun jobs => { r with
          jobs := jobs
          roundResults := r.roundResults ++ [doProbeLossRTT target dials] }
      else none
    | _ => none
  | .leave i => (r.jobs.next (.leave i)).map fun jobs => { r with jobs := jobs }
  | .tick _ | .wait => none

end Round

namespace Prober

def init (concurrency attempts : Nat) : Prober := ⟨concurrency, attempts, none, .empty, []⟩

/-- The loop of `StartProbePeriodically`, with `wait` for the end of `doProbeLossRTT`. -/
def next (s : Prober) (e : ProberEvent) : Option Prober :=
  match e, s.round with
  | .tick none, none => some s
  | .tick (some targets), none => some { s with round := some (.start s.concurrency targets) }
  | .wait, some r =>
    if ∀ w ∈ r.jobs.workers, w = .ended then
      some { s with
        round := none
        latestResults := updateLatestResults s.latestResults r.roundResults
        rounds := s.rounds ++ [(r.targets, r.roundResults)] }
    else none
  | e, some r => (r.next s.attempts e).map fun r => { s with round := some r }
  | _, none => none

end Prober

/-- The settings that are missing get their defaults. -/
def startProbePeriodically (concurrency attempts : Int) : Prober :=
  .init (if concurrency ≤ 0 then 4 else concurrency.toNat)
    (if attempts ≤ 0 then 5 else attempts.toNat)

/-! ## One round -/

/-- The result of some dials of its target, one for each attempt. -/
def Result.Made (attempts : Nat) (x : Result) : Prop :=
  ∃ dials : List Dial, dials.length = attempts ∧ x = doProbeLossRTT x.target dials

namespace Round

structure Fed (concurrency attempts : Nat) (r : Round) : Prop where
  jobs : r.jobs.Sound
  fed : r.targets = r.jobs.sent ++ r.todo
  probed : r.jobs.finished = r.roundResults.map Result.target
  closed : r.jobs.closed = true → r.todo = []
  unbuffered : r.jobs.cap = 0
  staffed : r.jobs.workers.length = concurrency
  made : ∀ x ∈ r.roundResults, x.Made attempts

variable {concurrency attempts : Nat} {r r' : Round}

theorem Fed.start (concurrency attempts : Nat) (targets : List ProbeTask) :
    Fed concurrency attempts (start concurrency targets) where
  jobs := .init 0 concurrency
  fed := rfl
  probed := rfl
  closed := by simp [Round.start, WorkQueue.init]
  unbuffered := rfl
  staffed := List.length_replicate
  made := by simp [Round.start]

theorem Fed.step (h : Fed concurrency attempts r) {e : ProberEvent}
    (move : r.next attempts e = some r') : Fed concurrency attempts r' := by
  cases e with
  | tick tasks | wait => cases move
  | job i =>
    simp only [next] at move
    split at move
    · rename_i t todo waiting
      obtain ⟨jobs, handed, rfl⟩ := Option.map_eq_some_iff.mp move
      have handed := WorkQueue.step_of_next handed
      have sound := h.jobs.step handed
      have staffed := (WorkQueue.workers_length_step handed).trans h.staffed
      cases handed with
      | hand _ _ _ running =>
        refine ⟨sound, by simp [h.fed, waiting], h.probed, fun closed => ?_, h.unbuffered, staffed,
          h.made⟩
        simp [running] at closed
    · cases move
  | close =>
    simp only [next] at move
    split at move
    · rename_i done
      obtain ⟨jobs, closes, rfl⟩ := Option.map_eq_some_iff.mp move
      have closes := WorkQueue.step_of_next closes
      have sound := h.jobs.step closes
      cases closes with
      | close _ => exact ⟨sound, h.fed, h.probed, fun _ => done, h.unbuffered, h.staffed, h.made⟩
    · cases move
  | probe i dials =>
    simp only [next] at move
    split at move
    · rename_i target busy
      split at move
      · rename_i tries
        obtain ⟨jobs, done, rfl⟩ := Option.map_eq_some_iff.mp move
        have done := WorkQueue.step_of_next done
        have sound := h.jobs.step done
        have staffed := (WorkQueue.workers_length_step done).trans h.staffed
        cases done with
        | @finish _ target' busy' =>
          obtain rfl : target = target' := by simpa using busy.symm.trans busy'
          refine ⟨sound, h.fed, ?_, h.closed, h.unbuffered, staffed, fun x mem => ?_⟩
          · simp [h.probed, doProbeLossRTT]
          · obtain mem | new := List.mem_append.mp mem
            · exact h.made x mem
            · rw [List.mem_singleton.mp new]
              exact ⟨dials, tries, rfl⟩
      · cases move
    · cases move
  | leave i =>
    obtain ⟨jobs, left, rfl⟩ := Option.map_eq_some_iff.mp move
    have left := WorkQueue.step_of_next left
    have sound := h.jobs.step left
    have staffed := (WorkQueue.workers_length_step left).trans h.staffed
    cases left with
    | leave _ _ _ =>
      exact ⟨sound, h.fed, h.probed, h.closed, h.unbuffered, staffed, h.made⟩

/-- When all workers have ended, each target has its result. -/
theorem Fed.results_perm (h : Fed concurrency attempts r) (workers : 0 < concurrency)
    (ended : ∀ w ∈ r.jobs.workers, w = .ended) : r.roundResults.map Result.target ~ r.targets := by
  obtain ⟨w, mem⟩ := List.exists_mem_of_length_pos (h.staffed ▸ workers)
  obtain ⟨closed, empty⟩ := h.jobs.ended (ended w mem ▸ mem)
  have idle : r.jobs.Idle := ⟨empty, fun w mem => by rw [ended w mem]; rfl⟩
  rw [← h.probed, h.fed, h.closed closed, List.append_nil]
  exact Multiset.coe_eq_coe.mp (h.jobs.finished_perm idle)

theorem targets_step {e : ProberEvent} (move : r.next attempts e = some r') :
    r'.targets = r.targets := by
  cases e with
  | tick tasks | wait => cases move
  | leave i =>
    obtain ⟨jobs, -, rfl⟩ := Option.map_eq_some_iff.mp move
    rfl
  | job i | close =>
    simp only [next] at move
    split at move
    · obtain ⟨jobs, -, rfl⟩ := Option.map_eq_some_iff.mp move
      rfl
    · cases move
  | probe i dials =>
    simp only [next] at move
    split at move
    · split at move
      · obtain ⟨jobs, -, rfl⟩ := Option.map_eq_some_iff.mp move
        rfl
      · cases move
    · cases move

/-- How far the round is from its end. -/
def rank (r : Round) : Nat :=
  2 * r.todo.length + r.jobs.rank + if r.jobs.closed then 0 else 1

/-- Until all workers have ended, one of them or the goroutine that feeds them can go on. -/
theorem Fed.exists_next (h : Fed concurrency attempts r) (workers : 0 < concurrency)
    (left : ¬ ∀ w ∈ r.jobs.workers, w = .ended) :
    ∃ e r', e.ticks = false ∧ r.next attempts e = some r' ∧ rank r' < rank r := by
  by_cases working : ∃ w ∈ r.jobs.workers, w.held ≠ 0
  · obtain ⟨w, mem, holds⟩ := working
    obtain ⟨i, there⟩ := List.mem_iff_getElem?.mp mem
    cases w with
    | waiting | ended => exact absurd rfl holds
    | busy target =>
      have done := WorkQueue.next_of_step (.finish there)
      refine ⟨.probe i (List.replicate attempts .timeout), _, rfl,
        by simp only [next, there, List.length_replicate, if_true, done]; rfl, ?_⟩
      have less := WorkQueue.rank_finish there
      simp only [rank]
      omega
  · push Not at working
    have empty : r.jobs.queue.length ≤ 0 := h.unbuffered ▸ h.jobs.room
    have idle : r.jobs.Idle := ⟨List.eq_nil_of_length_eq_zero (Nat.le_zero.mp empty), working⟩
    cases closed : r.jobs.closed with
    | true =>
      obtain ⟨i, jobs, leaves, less⟩ := WorkQueue.exists_leave idle closed left
      have left := WorkQueue.next_of_step leaves
      refine ⟨.leave i, { r with jobs := jobs }, rfl, by simp [next, left], ?_⟩
      cases leaves with
      | leave _ _ _ =>
        simp only [rank] at less ⊢
        omega
    | false =>
      cases todo : r.todo with
      | nil =>
        have closes := WorkQueue.next_of_step (.close closed)
        refine ⟨.close, { r with jobs := { r.jobs with closed := true } }, rfl,
          by simp [next, todo, closes], ?_⟩
        simp [rank, closed, WorkQueue.rank]
      | cons t rest =>
        have some : r.jobs.workers ≠ [] := List.ne_nil_of_length_pos (h.staffed ▸ workers)
        obtain ⟨i, jobs, hands, more⟩ := h.jobs.exists_hand some idle closed t
        have handed := WorkQueue.next_of_step hands
        refine ⟨.job i, { r with todo := rest, jobs := jobs }, rfl,
          by simp [next, todo, handed], ?_⟩
        cases hands with
        | hand _ _ _ _ =>
          simp only [rank, todo, List.length_cons] at more ⊢
          omega

end Round

/-! ## Round after round -/

namespace Prober

structure Kept (s : Prober) : Prop where
  workers : 0 < s.concurrency
  round : ∀ r ∈ s.round, r.Fed s.concurrency s.attempts
  complete : ∀ x ∈ s.rounds, x.2.map Result.target ~ x.1 ∧ ∀ y ∈ x.2, y.Made s.attempts
  filed : ∀ ip, s.latestResults.results.lookup ip =
    Dict.lastOf (fun r => r.target.ip) (s.rounds.flatMap Prod.snd) ip

variable {s s' : Prober}

theorem Kept.init {concurrency : Nat} (workers : 0 < concurrency) (attempts : Nat) :
    Kept (init concurrency attempts) where
  workers := workers
  round := by simp [Prober.init]
  complete := by simp [Prober.init]
  filed _ := rfl

/-- The results of a round that is over are filed. -/
theorem Kept.wait (h : Kept s) {r : Round} (fed : r.Fed s.concurrency s.attempts)
    (ended : ∀ w ∈ r.jobs.workers, w = .ended) :
    Kept { s with
      round := none
      latestResults := updateLatestResults s.latestResults r.roundResults
      rounds := s.rounds ++ [(r.targets, r.roundResults)] } where
  workers := h.workers
  round := by simp
  complete x mem := by
    obtain mem | new := List.mem_append.mp mem
    · exact h.complete x mem
    · rw [List.mem_singleton.mp new]
      exact ⟨fed.results_perm h.workers ended, fed.made⟩
  filed ip := by
    simp only [lookup_updateLatestResults, lastFor, h.filed, List.flatMap_append,
      List.flatMap_singleton, Dict.lastOf_append]

/-- What a step does: nothing, begin a round, go on with it or end it. -/
theorem next_cases {e : ProberEvent} (move : s.next e = some s') :
    s' = s ∨ (∃ targets, s.round = none ∧
      s' = { s with round := some (.start s.concurrency targets) }) ∨
    (∃ r r', s.round = some r ∧ r.next s.attempts e = some r' ∧ s' = { s with round := some r' }) ∨
    ∃ r, s.round = some r ∧ (∀ w ∈ r.jobs.workers, w = .ended) ∧ s' = { s with
      round := none
      latestResults := updateLatestResults s.latestResults r.roundResults
      rounds := s.rounds ++ [(r.targets, r.roundResults)] } := by
  cases round : s.round with
  | none =>
    cases e with
    | tick tasks =>
      cases tasks with
      | none =>
        simp only [next, round] at move
        exact .inl (Option.some.inj move).symm
      | some targets =>
        simp only [next, round] at move
        exact .inr (.inl ⟨targets, rfl, (Option.some.inj move).symm⟩)
    | job | close | probe | leave | wait => simp [next, round] at move
  | some r =>
    cases e with
    | tick tasks => cases tasks <;> simp [next, round, Round.next] at move
    | wait =>
      simp only [next, round] at move
      split at move
      · rename_i ended
        exact .inr (.inr (.inr ⟨r, rfl, ended, (Option.some.inj move).symm⟩))
      · cases move
    | job | close | probe | leave =>
      simp only [next, round] at move
      obtain ⟨r', moved, rfl⟩ := Option.map_eq_some_iff.mp move
      exact .inr (.inr (.inl ⟨r, r', rfl, moved, rfl⟩))

theorem Kept.step (h : Kept s) {e : ProberEvent} (move : s.next e = some s') : Kept s' := by
  obtain rfl | ⟨targets, -, rfl⟩ | ⟨r, r', round, moved, rfl⟩ | ⟨r, round, ended, rfl⟩ :=
    next_cases move
  · exact h
  · refine ⟨h.workers, fun r mem => ?_, h.complete, h.filed⟩
    obtain rfl := Option.some.inj mem
    exact .start _ _ _
  · refine ⟨h.workers, fun x mem => ?_, h.complete, h.filed⟩
    obtain rfl := Option.some.inj mem
    exact (h.round r round).step moved
  · exact h.wait (h.round r round) ended

theorem next_of_round {r r' : Round} {e : ProberEvent} (round : s.round = some r)
    (moved : r.next s.attempts e = some r') : s.next e = some { s with round := some r' } := by
  cases e with
  | tick tasks | wait => cases moved
  | job | close | probe | leave => simp [next, round, moved]

/-- A round that has begun can be brought to its end. -/
theorem Kept.reaches_end (h : Kept s) {r : Round} (round : s.round = some r) :
    ∃ s', Run (Moves next) (fun _ e => e.ticks = false) s s' ∧ s'.round = none ∧
      s'.rounds.map Prod.fst = s.rounds.map Prod.fst ++ [r.targets] := by
  induction distance : r.rank using Nat.strongRecOn generalizing s r with
  | ind n ih =>
    by_cases ended : ∀ w ∈ r.jobs.workers, w = .ended
    · have waited : s.next .wait = some { s with
          round := none
          latestResults := updateLatestResults s.latestResults r.roundResults
          rounds := s.rounds ++ [(r.targets, r.roundResults)] } := by
        simp only [next, round, if_pos ended]
      exact ⟨_, .single rfl waited, rfl, by simp⟩
    · obtain ⟨e, r', goes, moved, less⟩ := (h.round r round).exists_next h.workers ended
      have move := next_of_round round moved
      obtain ⟨s', run, none, same⟩ := ih r'.rank (distance ▸ less) (h.step move) rfl rfl
      rw [Round.targets_step moved] at same
      exact ⟨s', .trans (.single goes move) run, none, same⟩

end Prober

/-- What holds of the targets of a round holds of those of its results. -/
theorem forall_targets {x : List ProbeTask × List Result} (one : x.2.map Result.target ~ x.1)
    {P : ProbeTask → Prop} : (∀ t ∈ x.1, P t) ↔ ∀ y ∈ x.2, P y.target := by
  simp [← one.mem_iff]

theorem startProbePeriodically_kept (concurrency attempts : Int) :
    (startProbePeriodically concurrency attempts).Kept := by
  apply Prober.Kept.init
  split
  · decide
  · omega

/-- **Rounds of probes.** However the workers of the rounds take turns, every round that is over
has one result for each of its targets, made of as many dials as there are attempts. An IP has a
result in `latestResults` exactly if a round probed it, and it is that of a target of the last
such round. A round that has begun can always be brought to its end. -/
theorem latest_of_rounds {concurrency attempts : Int} {s : Prober}
    (run : Run (Moves Prober.next) (fun _ _ => True)
      (startProbePeriodically concurrency attempts) s) :
    (∀ x ∈ s.rounds, x.2.map Result.target ~ x.1 ∧ ∀ y ∈ x.2, y.Made s.attempts) ∧
      (∀ ip, s.latestResults.results.lookup ip = none ↔
        ∀ x ∈ s.rounds, ∀ t ∈ x.1, t.ip ≠ ip) ∧
      (∀ ip before x after, s.rounds = before ++ x :: after → (∃ t ∈ x.1, t.ip = ip) →
        (∀ y ∈ after, ∀ t ∈ y.1, t.ip ≠ ip) →
        ∃ y ∈ x.2, y.target.ip = ip ∧ s.latestResults.results.lookup ip = some y) ∧
      ∃ s', Run (Moves Prober.next) (fun _ e => e.ticks = false) s s' ∧ s'.round = none ∧
        s'.rounds.map Prod.fst = s.rounds.map Prod.fst ++ (s.round.map Round.targets).toList := by
  have kept : s.Kept := run.invariant (fun _ _ _ h _ move => h.step move)
    (startProbePeriodically_kept concurrency attempts)
  refine ⟨kept.complete, fun ip => ?_, fun ip before x after split probed later => ?_, ?_⟩
  · rw [kept.filed, Dict.lastOf_eq_none, List.forall_mem_flatMap]
    refine forall₂_congr fun x mem => ?_
    rw [forall_targets (kept.complete x mem).1]
  · have one := (kept.complete x (by simp [split])).1
    have none : Dict.lastOf (fun r => r.target.ip) (after.flatMap Prod.snd) ip = none := by
      rw [Dict.lastOf_eq_none, List.forall_mem_flatMap]
      intro y mem
      exact (forall_targets (kept.complete y (by simp [split, mem])).1).mp (later y mem)
    obtain ⟨y, listed, rfl⟩ : ∃ y ∈ x.2, y.target.ip = ip := by
      by_contra never
      push Not at never
      obtain ⟨t, mem, same⟩ := probed
      exact (forall_targets (P := fun t => t.ip ≠ ip) one).mpr never t mem same
    obtain ⟨z, last⟩ : ∃ z, Dict.lastOf (fun r => r.target.ip) x.2 y.target.ip = some z :=
      Dict.exists_lastOf listed
    obtain ⟨mem, same⟩ := Dict.of_lastOf last
    refine ⟨z, mem, same, ?_⟩
    rw [kept.filed, split, List.flatMap_append, List.flatMap_cons, Dict.lastOf_append,
      Dict.lastOf_append, none, last]
    rfl
  · cases round : s.round with
    | none => exact ⟨s, .start, round, by simp⟩
    | some r =>
      obtain ⟨s', run, none, same⟩ := kept.reaches_end round
      exact ⟨s', run, none, by simpa using same⟩

/-- Two workers on two targets: one probes the second target while the other has not finished
the first. The next round has begun. -/
theorem latest_of_rounds_two : ∃ s,
    Run (Moves Prober.next) (fun _ _ => True) (startProbePeriodically 2 1) s ∧
    s.rounds.map Prod.fst = [[⟨"node", "a", 7083⟩, ⟨"source", "b", 80⟩]] ∧
    ∃ s', Run (Moves Prober.next) (fun _ e => e.ticks = false) s s' ∧ s'.round = none ∧
      s'.rounds.map Prod.fst =
        [[⟨"node", "a", 7083⟩, ⟨"source", "b", 80⟩], [⟨"node", "a", 7083⟩]] := by
  have reached : ∃ s, Run (Moves Prober.next) (fun _ _ => True) (startProbePeriodically 2 1) s ∧
      (s.rounds.map Prod.fst = [[⟨"node", "a", 7083⟩, ⟨"source", "b", 80⟩]] ∧
        (s.round.map Round.targets) = some [⟨"node", "a", 7083⟩]) :=
    Run.exists_of_checked [.tick (some [⟨"node", "a", 7083⟩, ⟨"source", "b", 80⟩]), .job 1, .job 0,
      .probe 0 [.answered 40], .close, .leave 0, .probe 1 [.timeout], .leave 1, .wait, .tick none,
      .tick (some [⟨"node", "a", 7083⟩]), .job 1] (by decide +kernel)
  obtain ⟨s, run, rounds, targets⟩ := reached
  obtain ⟨s', ends, none, same⟩ := (latest_of_rounds run).2.2.2
  refine ⟨s, run, rounds, s', ends, none, ?_⟩
  rw [same, rounds, targets]
  rfl

end SkyAccel.Control
