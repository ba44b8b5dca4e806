import SkyAccel.Lib.Dict
import SkyAccel.Lib.Duration
import SkyAccel.Lib.TokenBucket
import Mathlib.Data.Rat.Floor

/-!
# The rate limiter

`server/rate-limiter.go`: a limiter for each port and client, which a goroutine of the port
deletes after `CleanInterval` minutes without a call. Limiters of `golang.org/x/time/rate`
are token buckets. A call happens at one time, in nanoseconds.

A deleted limiter comes back full, so nothing is seen of it if the one that was deleted was
full too. That needs the interval that the code computes from the configuration: the
product wraps around in 64 bits, and no ticker can be made of an interval that is not
positive (`unobservable_iff`).
-/

namespace SkyAccel.Server

structure RateLimit where
  qps : Int
  burst : Int
  cleanInterval : Int

namespace RateLimit
variable (cfg : RateLimit)

/-- `time.Duration(CleanInterval) * time.Minute`. -/
def interval : Int := Duration.mul cfg.cleanInterval Duration.minute

/-- The tokens in a nanosecond. A limit that is not positive refills nothing. -/
def rate : ℚ := max (cfg.qps : ℚ) 0 / 1000000000

/-- A bucket that is empty is full again at the earliest time at which it may be deleted. -/
def Refills : Prop := cfg.burst ≤ 0 ∨ (cfg.burst : ℚ) ≤ cfg.rate * (cfg.interval + 1)

theorem rate_nonneg : 0 ≤ cfg.rate := by
  unfold rate
  positivity

/-- The interval is even, so it is not the longest duration. -/
theorem interval_bounds : -2 ^ 63 ≤ cfg.interval ∧ cfg.interval < 2 ^ 63 - 1 := by
  simp only [interval, Duration.mul, Duration.minute, Int.bmod]
  omega

end RateLimit

structure IPLimiter (L : Type) where
  limiter : L
  lastSeen : Int

/-- The test of `cleanupLoop`. -/
def IPLimiter.unseen {L : Type} (cfg : RateLimit) (now : Int) (il : IPLimiter L) : Bool :=
  cfg.interval < Duration.sub now il.lastSeen

theorem IPLimiter.unseen_iff {L : Type} {cfg : RateLimit} {now : Int} {il : IPLimiter L} :
    il.unseen cfg now = true ↔ cfg.interval < now - il.lastSeen := by
  rw [unseen, decide_eq_true_eq, Duration.lt_sub_iff cfg.interval_bounds.1 cfg.interval_bounds.2]

/-- `running` is false after a panic has ended the process. -/
structure GlobalRateLimiter (L : Type) where
  portLimiters : Dict Int (Dict String (IPLimiter L))
  running : Bool

/-- A call of `Allow`, or the goroutine of a port going on at a tick. -/
inductive LimiterEvent
  | allow (port : Int) (ip : String) (now : Int)
  | cleanup (port : Int) (now : Int)
  deriving DecidableEq

def LimiterEvent.now : LimiterEvent → Int
  | .allow _ _ now => now
  | .cleanup _ now => now

/-- The events come in the order of their times. -/
def Timed (es : List LimiterEvent) : Prop := (es.map LimiterEvent.now).Pairwise (· ≤ ·)

instance (es : List LimiterEvent) : Decidable (Timed es) :=
  inferInstanceAs (Decidable ((es.map LimiterEvent.now).Pairwise (· ≤ ·)))

namespace GlobalRateLimiter
variable {L : Type} {cfg : RateLimit} (B : TokenBucket cfg.rate cfg.burst L)

def initRateLimiter : GlobalRateLimiter L := ⟨∅, true⟩

/-- `pl.limiters` of a port, which is empty before its first call. -/
def limiters (g : GlobalRateLimiter L) (port : Int) : Dict String (IPLimiter L) :=
  (g.portLimiters.lookup port).getD ∅

/-- The entry of a client. -/
def entry (g : GlobalRateLimiter L) (port : Int) (ip : String) : Option (IPLimiter L) :=
  (g.limiters port).lookup ip

def setEntry (g : GlobalRateLimiter L) (port : Int) (ip : String) (il : IPLimiter L) :
    GlobalRateLimiter L :=
  { g with portLimiters := g.portLimiters.insert port ((g.limiters port).insert ip il) }

def getLimiter (g : GlobalRateLimiter L) (port : Int) (ip : String) (now : Int) :
    GlobalRateLimiter L × L :=
  match g.entry port ip with
  | none => (g.setEntry port ip ⟨B.fresh, now⟩, B.fresh)
  | some il => (g.setEntry port ip { il with lastSeen := now }, il.limiter)

/-- The limiter is used in place. -/
def allow (g : GlobalRateLimiter L) (port : Int) (ip : String) (now : Int) :
    GlobalRateLimiter L × Bool :=
  let (g, limiter) := getLimiter B g port ip now
  let (ok, limiter) := B.allow limiter now
  (g.setEntry port ip ⟨limiter, now⟩, ok)

/-- `cleanupLoop` of a port that has had a call: `NewTicker` panics on an interval that is
not positive, and at a tick the entries that have not been seen for longer are deleted. -/
def cleanup (cfg : RateLimit) (g : GlobalRateLimiter L) (port : Int) (now : Int) :
    GlobalRateLimiter L :=
  match g.portLimiters.lookup port with
  | none => g
  | some pl =>
    if cfg.interval ≤ 0 then { g with running := false }
    else
      let kept := pl.keep fun _ il => !il.unseen cfg now
      { g with portLimiters := g.portLimiters.insert port kept }

/-- The answers to the calls, of which there are none after the process has ended. -/
def answers (g : GlobalRateLimiter L) : List LimiterEvent → List (Option Bool)
  | [] => []
  | .allow port ip now :: es =>
    if g.running then some (allow B g port ip now).2 :: answers (allow B g port ip now).1 es
    else none :: answers g es
  | .cleanup port now :: es =>
    if g.running then answers (cleanup cfg g port now) es else answers g es

/-- The answers of one limiter for each port and client that is never deleted. -/
def neverDeleted (limiter : Int → String → L) : List LimiterEvent → List (Option Bool)
  | [] => []
  | .allow port ip now :: es =>
    some (B.allow (limiter port ip) now).1 :: neverDeleted
      (fun port' ip' => if port' = port ∧ ip' = ip then (B.allow (limiter port ip) now).2
        else limiter port' ip') es
  | .cleanup _ _ :: es => neverDeleted limiter es

/-- Cleaning up changes no answer. -/
def Unobservable : Prop :=
  ∀ es, Timed es → answers B initRateLimiter es = neverDeleted B (fun _ _ => B.fresh) es

/-! ## Entries -/

section
variable {B} {g : GlobalRateLimiter L}

theorem entry_setEntry (port : Int) (ip : String) (il : IPLimiter L) (port' : Int) (ip' : String) :
    (g.setEntry port ip il).entry port' ip' =
      if port' = port ∧ ip' = ip then some il else g.entry port' ip' := by
  simp only [entry, setEntry, limiters, Dict.lookup_insert]
  by_cases same : port' = port
  · subst same
    simp only [if_true, Option.getD_some, Dict.lookup_insert, true_and]
  · simp only [same, false_and, if_false]

/-- What a call does: it uses the limiter of the client, or a new one. -/
theorem allow_eq (port : Int) (ip : String) (now : Int) :
    let limiter := ((g.entry port ip).map IPLimiter.limiter).getD B.fresh
    (allow B g port ip now).2 = (B.allow limiter now).1 ∧
      (allow B g port ip now).1.running = g.running ∧
      ∀ port' ip', (allow B g port ip now).1.entry port' ip' =
        if port' = port ∧ ip' = ip then some ⟨(B.allow limiter now).2, now⟩
        else g.entry port' ip' := by
  unfold allow getLimiter
  cases found : g.entry port ip with
  | none =>
    refine ⟨rfl, rfl, fun port' ip' => ?_⟩
    simp only [entry_setEntry, Option.map_none, Option.getD_none]
    split
    · rfl
    · rfl
  | some il =>
    refine ⟨rfl, rfl, fun port' ip' => ?_⟩
    simp only [entry_setEntry, Option.map_some, Option.getD_some]
    split
    · rfl
    · rfl

/-- What a tick does: it deletes the entries of the port that were not seen. -/
theorem cleanup_eq (positive : 0 < cfg.interval) (port now : Int) :
    (cleanup cfg g port now).running = g.running ∧
      ∀ port' ip, (cleanup cfg g port now).entry port' ip =
        if port' = port then (g.entry port' ip).filter fun il => !il.unseen cfg now
        else g.entry port' ip := by
  unfold cleanup
  split
  · rename_i none
    refine ⟨rfl, fun port' ip => ?_⟩
    split
    · rename_i same
      subst same
      have empty : g.entry port' ip = Option.none := by
        simp only [entry, limiters, none, Option.getD_none]
        rfl
      rw [empty]
      rfl
    · rfl
  · rename_i pl found
    rw [if_neg (not_le.mpr positive)]
    refine ⟨rfl, fun port' ip => ?_⟩
    simp only [entry, limiters, Dict.lookup_insert]
    by_cases same : port' = port
    · subst same
      simp only [if_true, Option.getD_some, found]
      apply Option.ext
      intro il
      rw [Option.filter_eq_some_iff]
      exact Dict.lookup_keep
    · simp only [if_neg same]

/-! ## The limiter that is never deleted -/

/-- The two sides at some time. A client with an entry has a limiter like the one that is
never deleted, and that of a client without an entry is full. -/
structure Matches (B : TokenBucket cfg.rate cfg.burst L) (now : Int) (g : GlobalRateLimiter L)
    (limiter : Int → String → L) : Prop where
  running : g.running = true
  seen : ∀ port ip il, g.entry port ip = some il →
    il.lastSeen ≤ now ∧ B.Alike il.limiter (limiter port ip) il.lastSeen
  gone : ∀ port ip, g.entry port ip = none → B.Holds (limiter port ip) now cfg.burst

variable {limiter : Int → String → L} {now now' : Int}

theorem Matches.init (B : TokenBucket cfg.rate cfg.burst L) (now : Int) :
    Matches B now initRateLimiter fun _ _ => B.fresh where
  running := rfl
  seen := nofun
  gone _ _ _ := B.holds_fresh now

theorem Matches.allow (h : Matches B now g limiter) (later : now ≤ now') (port : Int)
    (ip : String) :
    (allow B g port ip now').2 = (B.allow (limiter port ip) now').1 ∧
      Matches B now' (allow B g port ip now').1 (fun port' ip' =>
        if port' = port ∧ ip' = ip then (B.allow (limiter port ip) now').2
        else limiter port' ip') := by
  obtain ⟨answer, running, entries⟩ := allow_eq (B := B) (g := g) port ip now'
  -- the limiter that is used is like the one that is never deleted
  have alike : B.Alike (((g.entry port ip).map IPLimiter.limiter).getD B.fresh) (limiter port ip)
      now' := by
    cases found : g.entry port ip with
    | none =>
      have full := TokenBucket.holds_burst_later cfg.rate_nonneg (h.gone port ip found) later
      exact ⟨cfg.burst, min_le_left _ _, B.holds_fresh now', full⟩
    | some il =>
      obtain ⟨before, alike⟩ := h.seen port ip il found
      exact alike.later cfg.rate_nonneg (before.trans later)
  obtain ⟨same, after⟩ := alike.allow
  refine ⟨answer.trans same, running.trans h.running, fun port' ip' il found => ?_,
    fun port' ip' none => ?_⟩
  · rw [entries] at found
    split at found
    · rename_i own
      obtain rfl := Option.some.inj found
      simp only [if_pos own]
      exact ⟨le_refl _, after⟩
    · rename_i other
      simp only [if_neg other]
      obtain ⟨before, alike⟩ := h.seen port' ip' il found
      exact ⟨before.trans later, alike⟩
  · rw [entries] at none
    split at none
    · cases none
    · rename_i other
      simp only [if_neg other]
      exact TokenBucket.holds_burst_later cfg.rate_nonneg (h.gone port' ip' none) later

theorem Matches.cleanup (h : Matches B now g limiter) (positive : 0 < cfg.interval)
    (refills : cfg.Refills) (later : now ≤ now') (port : Int) :
    Matches B now' (cleanup cfg g port now') limiter := by
  obtain ⟨running, entries⟩ := cleanup_eq (g := g) positive port now'
  refine ⟨running.trans h.running, fun port' ip il found => ?_, fun port' ip none => ?_⟩
  · have before : g.entry port' ip = some il := by
      rw [entries] at found
      split at found
      · exact (Option.filter_eq_some_iff.mp found).1
      · exact found
    obtain ⟨seen, alike⟩ := h.seen port' ip il before
    exact ⟨seen.trans later, alike⟩
  · cases found : g.entry port' ip with
    | none => exact TokenBucket.holds_burst_later cfg.rate_nonneg (h.gone port' ip found) later
    | some il =>
      -- the entry is deleted now, which it is only after the tokens are back
      obtain ⟨seen, x, least, -, holds⟩ := h.seen port' ip il found
      have unseen : cfg.interval < now' - il.lastSeen := by
        rw [entries, found] at none
        split at none
        · simpa [IPLimiter.unseen_iff] using none
        · cases none
      have long : (cfg.interval : ℚ) + 1 ≤ now' - il.lastSeen := by
        exact_mod_cast Int.add_one_le_iff.mpr unseen
      apply TokenBucket.holds_burst cfg.rate_nonneg least holds (seen.trans later)
      obtain none | back := refills
      · exact .inl (by exact_mod_cast none)
      · exact .inr (back.trans (mul_le_mul_of_nonneg_left long cfg.rate_nonneg))

theorem answers_eq (positive : 0 < cfg.interval) (refills : cfg.Refills) (es : List LimiterEvent)
    (h : Matches B now g limiter) (later : ∀ e ∈ es, now ≤ e.now) (timed : Timed es) :
    answers B g es = neverDeleted B limiter es := by
  induction es generalizing now g limiter with
  | nil => rfl
  | cons e es ih =>
    obtain ⟨first, rest⟩ := List.pairwise_cons.mp timed
    have future : ∀ e' ∈ es, e.now ≤ e'.now := fun e' mem => first _ (List.mem_map_of_mem mem)
    have start := later e List.mem_cons_self
    cases e with
    | allow port ip time =>
      obtain ⟨answer, after⟩ := h.allow (show now ≤ time from start) port ip
      simp only [answers, neverDeleted, h.running, if_true, answer, ih after future rest]
    | cleanup port time =>
      simp only [answers, neverDeleted, h.running, if_true]
      exact ih (h.cleanup positive refills start port) future rest

theorem unobservable_of_refills (B : TokenBucket cfg.rate cfg.burst L)
    (positive : 0 < cfg.interval) (refills : cfg.Refills) : Unobservable B := by
  intro es timed
  cases es with
  | nil => rfl
  | cons e es =>
    apply answers_eq positive refills (e :: es) (.init B e.now) _ timed
    obtain ⟨first, -⟩ := List.pairwise_cons.mp timed
    intro e' mem
    obtain rfl | mem := List.mem_cons.mp mem
    · exact le_refl _
    · exact first _ (List.mem_map_of_mem mem)

/-- Up to 153722867 minutes the interval does not wrap around, and then it is enough that
the configured rate refills a bucket in the configured time. -/
theorem unobservable_of_minutes (B : TokenBucket cfg.rate cfg.burst L)
    (positive : 0 < cfg.cleanInterval) (bound : cfg.cleanInterval ≤ 153722867)
    (enough : cfg.burst ≤ cfg.qps * 60 * cfg.cleanInterval) : Unobservable B := by
  have interval : cfg.interval = cfg.cleanInterval * 60000000000 := by
    simp only [RateLimit.interval, Duration.mul, Duration.minute, Int.bmod]
    omega
  refine unobservable_of_refills B (by omega) (.inr ?_)
  have minutes : (0 : ℚ) < cfg.cleanInterval := by exact_mod_cast positive
  have enough' : (cfg.burst : ℚ) ≤ cfg.qps * 60 * cfg.cleanInterval := by exact_mod_cast enough
  have interval' : (cfg.interval : ℚ) = cfg.cleanInterval * 60000000000 := by exact_mod_cast interval
  calc (cfg.burst : ℚ) ≤ cfg.qps * (60 * cfg.cleanInterval) := by linarith
    _ ≤ max (cfg.qps : ℚ) 0 * (60 * cfg.cleanInterval) :=
      mul_le_mul_of_nonneg_right (le_max_left _ _) (by linarith)
    _ = cfg.rate * cfg.interval := by
      rw [RateLimit.rate, interval']
      ring
    _ ≤ cfg.rate * (cfg.interval + 1) :=
      mul_le_mul_of_nonneg_left (by linarith) cfg.rate_nonneg

/-! ## Deletions that are seen -/

/-- Calls of one client at one time. -/
theorem answers_replicate (n : Nat) (port : Int) (ip : String) (now : Int) (es : List LimiterEvent)
    (running : g.running = true) :
    ∃ g' : GlobalRateLimiter L, g'.running = true ∧
      ((n ≠ 0 ∨ ∃ l, g.entry port ip = some ⟨l, now⟩) → ∃ l, g'.entry port ip = some ⟨l, now⟩) ∧
      answers B g (List.replicate n (.allow port ip now) ++ es) =
        (B.calls (((g.entry port ip).map IPLimiter.limiter).getD B.fresh) now n).1.map some ++
          answers B g' es := by
  induction n generalizing g with
  | zero => exact ⟨g, running, fun seen => seen.resolve_left fun none => none rfl, rfl⟩
  | succ n ih =>
    obtain ⟨answer, same, entries⟩ := allow_eq (B := B) (g := g) port ip now
    obtain ⟨g', running', found, rest⟩ := ih (same.trans running)
    have entry := entries port ip
    rw [if_pos ⟨rfl, rfl⟩] at entry
    rw [entry] at rest
    refine ⟨g', running', fun _ => found (.inr ⟨_, entry⟩), ?_⟩
    simp only [List.replicate_succ, List.cons_append, answers, running, if_true, rest, answer,
      TokenBucket.calls, List.map_cons, Option.map_some, Option.getD_some]

theorem neverDeleted_replicate (limiter : Int → String → L) (n : Nat) (port : Int) (ip : String)
    (now : Int) (es : List LimiterEvent) :
    ∃ limiter' : Int → String → L, limiter' port ip = (B.calls (limiter port ip) now n).2 ∧
      neverDeleted B limiter (List.replicate n (.allow port ip now) ++ es) =
        (B.calls (limiter port ip) now n).1.map some ++ neverDeleted B limiter' es := by
  induction n generalizing limiter with
  | zero => exact ⟨limiter, rfl, rfl⟩
  | succ n ih =>
    obtain ⟨limiter', own, rest⟩ := ih fun port' ip' =>
      if port' = port ∧ ip' = ip then (B.allow (limiter port ip) now).2 else limiter port' ip'
    simp only [and_self, if_true] at own rest
    refine ⟨limiter', own, ?_⟩
    simp only [List.replicate_succ, List.cons_append, neverDeleted, rest, TokenBucket.calls,
      List.map_cons]

/-- A ticker with an interval that is not positive ends the process. -/
theorem cleanup_panics {port : Int} {ip : String} {il : IPLimiter L} (now : Int)
    (found : g.entry port ip = some il) (none : cfg.interval ≤ 0) :
    (cleanup cfg g port now).running = false := by
  unfold cleanup
  split
  · rename_i missing
    simp only [entry, limiters, missing, Option.getD_none] at found
    cases found
  · rw [if_pos none]

theorem positive_of_unobservable (h : Unobservable B) : 0 < cfg.interval := by
  by_contra none
  have start : (initRateLimiter : GlobalRateLimiter L).running = true := rfl
  obtain ⟨-, running, entries⟩ := allow_eq (B := B) (g := initRateLimiter) 0 "" 0
  rw [start] at running
  have stopped := cleanup_panics 0 (entries 0 "") (not_lt.mp none)
  have seen := h [.allow 0 "" 0, .cleanup 0 0, .allow 0 "" 0] (by simp [Timed, LimiterEvent.now])
  simp [answers, neverDeleted, start, running, stopped] at seen

/-- A client makes as many calls at time 0 and then again when its entry has just been
deleted. If cleaning up is unobservable, the new limiter answers as the used one would. -/
theorem calls_of_unobservable (h : Unobservable B) (positive : 0 < cfg.interval) {n : Nat}
    (calls : n ≠ 0) : (B.calls B.fresh (cfg.interval + 1) n).1 =
      (B.calls (B.calls B.fresh 0 n).2 (cfg.interval + 1) n).1 := by
  let time := cfg.interval + 1
  let again := List.replicate n (LimiterEvent.allow 0 "" time) ++ []
  have timed : Timed (List.replicate n (.allow 0 "" 0) ++ .cleanup 0 time :: again) := by
    have order : 0 ≤ time := by omega
    simp [Timed, LimiterEvent.now, again, List.pairwise_append, List.pairwise_replicate, order]
  have seen := h _ timed
  obtain ⟨g₁, running, used, first⟩ := answers_replicate (B := B) (g := initRateLimiter) n 0 "" 0
    (.cleanup 0 time :: again) rfl
  obtain ⟨limiter, own, first'⟩ := neverDeleted_replicate (B := B) (fun _ _ => B.fresh) n 0 "" 0
    (.cleanup 0 time :: again)
  rw [first, first'] at seen
  have later := List.append_cancel_left seen
  obtain ⟨l, found⟩ := used (.inl calls)
  obtain ⟨running', entries⟩ := cleanup_eq (g := g₁) positive 0 time
  have deleted : (cleanup cfg g₁ 0 time).entry 0 "" = none := by
    have unseen : IPLimiter.unseen cfg time ⟨l, 0⟩ = true := by
      simp [IPLimiter.unseen_iff, time]
    simp [entries, found, unseen]
  obtain ⟨g₂, -, -, second⟩ := answers_replicate (B := B) (g := cleanup cfg g₁ 0 time) n 0 "" time
    [] (running'.trans running)
  obtain ⟨limiter', -, second'⟩ := neverDeleted_replicate (B := B) limiter n 0 "" time []
  simp only [answers, neverDeleted, running, if_true] at later
  rw [second, second', deleted, own] at later
  simp only [answers, neverDeleted, List.append_nil, Option.map_none, Option.getD_none] at later
  exact List.map_injective_iff.mpr (Option.some_injective Bool) later

/-- If a bucket is deleted before its tokens are back, a client that has used all of them
gets them back too soon. -/
theorem refills_of_unobservable (h : Unobservable B) (positive : 0 < cfg.interval) :
    cfg.Refills := by
  by_contra short
  simp only [RateLimit.Refills, not_or, not_le] at short
  obtain ⟨burst, short⟩ := short
  obtain ⟨n, size⟩ := Int.eq_ofNat_of_zero_le burst.le
  have size' : (cfg.burst : ℚ) = n := by simp [size]
  have none : (0 : ℚ) ≤ n := Nat.cast_nonneg n
  have allowed := (TokenBucket.calls_eq_iff (B.holds_fresh (cfg.interval + 1)) (size' ▸ none) n).mpr
    size'.ge
  rw [calls_of_unobservable h positive (by omega)] at allowed
  -- the used limiter is empty at time 0, and has not enough tokens when it is deleted
  have empty := TokenBucket.calls_holds (B.holds_fresh 0) n size'.ge
  rw [sub_eq_zero.mpr size'] at empty
  have later : 0 ≤ cfg.interval + 1 := by omega
  have back := B.holds_later empty later
  have gain := TokenBucket.gain_nonneg cfg.rate_nonneg later
  have enough := (TokenBucket.calls_eq_iff back (le_min (size' ▸ none) (by linarith)) n).mp allowed
  have bound := enough.trans (min_le_right _ _)
  push_cast at bound
  linarith

/-- **Cleaning up is unobservable** exactly if the interval that the code computes is
positive and a bucket refills in it. -/
theorem unobservable_iff (B : TokenBucket cfg.rate cfg.burst L) :
    Unobservable B ↔ 0 < cfg.interval ∧ cfg.Refills := by
  constructor
  · intro h
    have positive := positive_of_unobservable h
    exact ⟨positive, refills_of_unobservable h positive⟩
  · rintro ⟨positive, refills⟩
    exact unobservable_of_refills B positive refills

end

/-! ## Three configurations -/

/-- The configuration that is shipped. -/
def shippedLimit : RateLimit := ⟨1000, 2000, 5⟩

/-- A configuration file without the section on rate limits. -/
def noRateLimit : RateLimit := ⟨0, 0, 0⟩

/-- An interval that wraps around to one minute. -/
def longInterval : RateLimit := ⟨1, 61, 2 ^ 53 + 1⟩

/-- A client that makes calls at time 0, and as many right after a tick. -/
def twice (n : Nat) (now : Int) : List LimiterEvent :=
  List.replicate n (.allow 8081 "1.2.3.4" 0) ++
    .cleanup 8081 now :: List.replicate n (.allow 8081 "1.2.3.4" now)

/-- The limiters that are computed. -/
def computed (cfg : RateLimit) : TokenBucket cfg.rate cfg.burst TokenBucket.Bucket :=
  TokenBucket.bucket cfg.rate_nonneg cfg.burst

theorem unobservable_shipped : Unobservable (computed shippedLimit) := by
  apply (unobservable_iff (computed shippedLimit)).mpr
  refine ⟨by decide, ?_⟩
  unfold RateLimit.Refills
  decide +kernel

/-- Both configurations refill a bucket in the time that they ask for. With the first one
the process ends when the goroutine of the port starts. With the second one the bucket is
deleted after a minute, when it is not full, and one call too many is allowed. -/
theorem cleanup_observable :
    (noRateLimit.burst ≤ noRateLimit.qps * 60 * noRateLimit.cleanInterval ∧ Timed (twice 1 1) ∧
      answers (computed noRateLimit) initRateLimiter (twice 1 1) = [some false, none] ∧
      neverDeleted (computed noRateLimit) (fun _ _ => (computed noRateLimit).fresh) (twice 1 1) =
        [some false, some false]) ∧
    longInterval.burst ≤ longInterval.qps * 60 * longInterval.cleanInterval ∧
      Timed (twice 61 60000000001) ∧
      answers (computed longInterval) initRateLimiter (twice 61 60000000001) =
        List.replicate 122 (some true) ∧
      neverDeleted (computed longInterval) (fun _ _ => (computed longInterval).fresh)
        (twice 61 60000000001) = List.replicate 121 (some true) ++ [some false] := by
  decide +kernel

end GlobalRateLimiter

end SkyAccel.Server
