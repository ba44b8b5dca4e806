import SkyAccel.Server.Disaggregator

/-!
# Responses of other requests

The number of a request is the last byte of the client's address and 24 bits of a counter.
While fewer than 2^24 numbers are given out from one until it is used for the last time, two
requests with one number are never registered at once, and a response reaches no request
but its own (`responses_apart`).
-/

namespace SkyAccel.Server

/-! ## Numbers -/

/-- The counter can be read off a number, up to 24 bits. -/
theorem genShortReqID_mod (seq : UInt64) (clientIP : String) :
    (genShortReqID seq clientIP).toNat % 2 ^ 24 = seq.toNat % 2 ^ 24 := by
  have high : (ipSegment clientIP <<< 24).toNat % 2 ^ 24 = 0 := by
    rw [UInt32.toNat_shiftLeft, Nat.shiftLeft_eq, show (24 : UInt32).toNat % 32 = 24 by decide]
    omega
  have low : (seq.toUInt32 &&& 0xFFFFFF).toNat = seq.toNat % 2 ^ 24 := by
    rw [UInt32.toNat_and, UInt64.toNat_toUInt32,
      show (0xFFFFFF : UInt32).toNat = 2 ^ 24 - 1 by decide, Nat.and_two_pow_sub_one_eq_mod]
    omega
  rw [genShortReqID, UInt32.toNat_or, Nat.or_mod_two_pow, high, low, Nat.zero_or, Nat.mod_mod]

namespace Disaggregator

/-- The numbers given out count on from where the counter stood. -/
structure Numbered (reqSeq : UInt64) (s : Disaggregator) : Prop where
  counter : s.reqSeq.toNat % 2 ^ 24 = (reqSeq.toNat + s.userIDs.length) % 2 ^ 24
  number : ∀ p userID, s.userIDs[p]? = some userID →
    userID.toNat % 2 ^ 24 = (reqSeq.toNat + p + 1) % 2 ^ 24

theorem numbered_step {reqSeq : UInt64} {s s' : Disaggregator} {e : DisaggEvent}
    (inv : s.Numbered reqSeq) (step : Step s e s') : s'.Numbered reqSeq := by
  cases step with
  | genShortReqID clientIP =>
    have counter : (s.reqSeq + 1).toNat % 2 ^ 24 =
        (reqSeq.toNat + s.userIDs.length + 1) % 2 ^ 24 := by
      have := inv.counter
      rw [UInt64.toNat_add, UInt64.toNat_one]
      omega
    constructor
    case counter =>
      rw [List.length_append, List.length_singleton, ← Nat.add_assoc]
      exact counter
    case number =>
      intro p userID number
      rw [List.getElem?_append] at number
      split at number
      · exact inv.number p userID number
      · rename_i beyond
        rw [List.getElem?_singleton] at number
        split at number
        · rename_i here
          obtain rfl := Option.some.inj number
          rw [genShortReqID_mod, counter]
          omega
        · cases number
  | register | found | stray | drop | panic | send | receive | cleanup =>
    exact ⟨inv.counter, inv.number⟩

end Disaggregator

/-! ## The use of a number -/

namespace DisaggEvent

/-- The request whose number the event uses. -/
def uses : DisaggEvent → Option Nat
  | .lookup q _ => some q
  | .cleanup p => some p
  | _ => none

theorem uses_of_cleans {e : DisaggEvent} {p : Nat} (h : e.cleans = some p) :
    e.uses = some p := by
  cases e with
  | cleanup => exact h
  | genShortReqID | register | lookup | stray | send | receive => cases h

end DisaggEvent

namespace Disaggregator

/-- Fewer than 2^24 numbers have been given out since the one that the event uses. -/
def Fresh (s : Disaggregator) (e : DisaggEvent) : Prop :=
  ∀ q ∈ e.uses, s.userIDs.length - 1 - q < 2 ^ 24

instance (s : Disaggregator) (e : DisaggEvent) : Decidable (s.Fresh e) :=
  inferInstanceAs (Decidable (∀ q ∈ e.uses, s.userIDs.length - 1 - q < 2 ^ 24))

/-- And so it is for every request that still waits, and will be cleaned up. -/
def Young (s : Disaggregator) : Prop :=
  ∀ p, s.stage p = .waiting → s.userIDs.length - 1 - p < 2 ^ 24

/-- Only requests with a number have come so far as to wait. -/
theorem stage_of_run {ok : Disaggregator → DisaggEvent → Prop} {reqSeq : UInt64}
    {s : Disaggregator} (run : Run (Moves next) ok (start reqSeq) s) :
    ∀ p, s.stage p ≠ .generated → p < s.userIDs.length := by
  refine run.invariant (P := fun s => ∀ p, s.stage p ≠ .generated → p < s.userIDs.length) ?_
    fun p late => absurd rfl late
  intro s e s' inv _ move p late
  cases (step_of_next move).2 with
  | genShortReqID clientIP =>
    have := inv p late
    rw [List.length_append, List.length_singleton]
    omega
  | @register q userID number new =>
    by_cases same : p = q
    · exact same ▸ (List.getElem?_eq_some_iff.mp number).1
    · exact inv p (by simpa [Function.update_of_ne same] using late)
  | found | stray | drop | panic | send | receive => exact inv p late
  | @cleanup q userID number waiting =>
    by_cases same : p = q
    · exact same ▸ (List.getElem?_eq_some_iff.mp number).1
    · exact inv p (by simpa [Function.update_of_ne same] using late)

theorem length_step {s s' : Disaggregator} {e : DisaggEvent} (step : Step s e s') :
    s.userIDs.length ≤ s'.userIDs.length := by
  cases step with
  | genShortReqID => simp
  | register | found | stray | drop | panic | send | receive | cleanup => exact le_refl _

/-- In a run that cleans up what waits, it has not waited too long. -/
theorem young_of_run {s t : Disaggregator}
    (counted : ∀ p, s.stage p ≠ .generated → p < s.userIDs.length)
    (run : Run (Moves next) Fresh s t)
    (ended : ∀ p < t.userIDs.length, t.stage p ≠ .waiting) : s.Young := by
  have kept : s.userIDs.length ≤ t.userIDs.length ∧ ∀ p, s.stage p = .waiting →
      t.stage p = .waiting ∨ s.userIDs.length - 1 - p < 2 ^ 24 := by
    refine run.invariant (P := fun t => s.userIDs.length ≤ t.userIDs.length ∧
      ∀ p, s.stage p = .waiting → t.stage p = .waiting ∨ s.userIDs.length - 1 - p < 2 ^ 24)
      ?_ ⟨le_refl _, fun p waiting => .inl waiting⟩
    rintro t e t' ⟨longer, before⟩ fresh move
    have step := (step_of_next move).2
    refine ⟨longer.trans (length_step step), fun q waits => ?_⟩
    obtain still | young := before q waits
    · by_cases cleans : e.cleans = some q
      · have age := fresh q (DisaggEvent.uses_of_cleans cleans)
        right
        omega
      · exact .inl (waiting_step step still cleans)
    · exact .inr young
  intro p waiting
  have inside := counted p (by rw [waiting]; decide)
  exact (kept.2 p waiting).resolve_left (ended p (inside.trans_le kept.1))

/-- A run that comes to an end keeps its requests young all along. -/
theorem run_young {reqSeq : UInt64} {s t : Disaggregator}
    (run : Run (Moves next) Fresh (start reqSeq) s) (later : Run (Moves next) Fresh s t)
    (ended : ∀ p < t.userIDs.length, t.stage p ≠ .waiting) :
    Run (Moves next) (fun s e => s.Fresh e ∧ s.Young) (start reqSeq) s := by
  induction run with
  | start => exact .start
  | next before fresh move ih =>
    have rest := (Run.single fresh move).trans later
    exact (ih rest).next ⟨fresh, young_of_run (stage_of_run before) rest ended⟩ move

/-- Under the number that an event uses, nothing but the request itself is registered: two
requests with one number are at least 2^24 numbers apart. -/
theorem own_registration {reqSeq : UInt64} {s : Disaggregator} {e : DisaggEvent}
    (registered : s.Registered) (numbered : s.Numbered reqSeq) (fresh : s.Fresh e)
    (young : s.Young) {q ch : Nat} {userID : UInt32} (uses : q ∈ e.uses)
    (number : s.userIDs[q]? = some userID) (found : s.waiters.lookup userID = some ch) :
    ch = q := by
  obtain ⟨number', waiting⟩ := registered userID ch found
  obtain ⟨inside, -⟩ := List.getElem?_eq_some_iff.mp number
  obtain ⟨inside', -⟩ := List.getElem?_eq_some_iff.mp number'
  have := numbered.number q userID number
  have := numbered.number ch userID number'
  have := fresh q uses
  have := young ch waiting
  omega

/-! ## Channels -/

/-- Responses are on their way to, and in, the channels of their own requests. -/
structure Own (reqSeq : UInt64) (s : Disaggregator) : Prop where
  registered : s.Registered
  numbered : s.Numbered reqSeq
  sending : ∀ d ∈ s.sending, d.request = some d.channel
  channel : ∀ c x, s.channel c = some x → x.1 = some c

theorem own_step {reqSeq : UInt64} {s s' : Disaggregator} {e : DisaggEvent}
    (inv : s.Own reqSeq) (fresh : s.Fresh e) (young : s.Young) (step : Step s e s') :
    s'.Own reqSeq := by
  have registered := registered_step inv.registered step
  have numbered := numbered_step inv.numbered step
  cases step with
  | genShortReqID | register | drop | panic | cleanup =>
    exact ⟨registered, numbered, inv.sending, inv.channel⟩
  | found number found =>
    refine ⟨registered, numbered, fun d mem => ?_, inv.channel⟩
    obtain old | rfl := by simpa using mem
    · exact inv.sending d old
    · rw [own_registration inv.registered inv.numbered fresh young rfl number found]
  | stray other found =>
    exact absurd (List.mem_of_getElem? (inv.registered _ _ found).1) other
  | @send i d held opened =>
    refine ⟨registered, numbered, fun d mem => inv.sending d (List.mem_of_mem_eraseIdx mem), ?_⟩
    intro c x holds
    change Function.update s.channel _ _ c = _ at holds
    rw [Function.update_apply] at holds
    split at holds
    · rename_i same
      obtain rfl := Option.some.inj holds
      rw [inv.sending d held, same]
    · exact inv.channel c x holds
  | receive p =>
    refine ⟨registered, numbered, inv.sending, fun c x holds => ?_⟩
    change Function.update s.channel _ _ c = _ at holds
    rw [Function.update_apply] at holds
    split at holds
    · cases holds
    · exact inv.channel c x holds

theorem own_start (reqSeq : UInt64) : (start reqSeq).Own reqSeq := by
  constructor
  case registered => exact (safe_start reqSeq).registered
  case numbered => exact ⟨rfl, fun p userID none => by cases none⟩
  case sending =>
    intro d none
    cases none
  case channel =>
    intro c x none
    cases none

/-- **Responses never cross users.** Take any step of a run at whose end every request has
been cleaned up, in which fewer than 2^24 numbers are given out between the generation of a
number and each delivery and cleanup that uses it. Afterwards every response that is on its
way to a channel, or in one, is there for the request that made the channel. And if the step
was a cleanup, it has removed no registration but that of its own request. -/
theorem responses_apart {reqSeq : UInt64} {s s' t : Disaggregator} {e : DisaggEvent}
    (before : Run (Moves next) Fresh (start reqSeq) s) (fresh : s.Fresh e)
    (move : s.next e = some s') (later : Run (Moves next) Fresh s' t)
    (ended : ∀ p < t.userIDs.length, t.stage p ≠ .waiting) :
    (∀ d ∈ s'.sending, d.request = some d.channel) ∧
      (∀ c x, s'.channel c = some x → x.1 = some c) ∧
      ∀ p, e = .cleanup p → ∀ userID c, s.waiters.lookup userID = some c → c ≠ p →
        s'.waiters.lookup userID = some c := by
  have rest : Run (Moves next) Fresh s t := (Run.single fresh move).trans later
  have young := young_of_run (stage_of_run before) rest ended
  have own : s.Own reqSeq := by
    apply (run_young before rest ended).invariant _ (own_start reqSeq)
    exact fun _ _ _ inv ok move => own_step inv ok.1 ok.2 (step_of_next move).2
  have after := own_step own fresh young (step_of_next move).2
  refine ⟨after.sending, after.channel, ?_⟩
  rintro p rfl userID c found other
  cases (step_of_next move).2 with
  | drop cleans => cases cleans
  | cleanup number waiting =>
    change (s.waiters.erase _).lookup userID = _
    rw [Dict.lookup_erase, if_neg, found]
    rintro rfl
    exact other (own_registration own.registered own.numbered fresh young rfl number found)

theorem responses_apart_two :
    ∃ s s', Run (Moves next) Fresh (start 0) s ∧ s.next (.lookup 1 [9]) = some s' ∧
      s'.sending = [⟨some 1, 1, [9]⟩] ∧ ∀ d ∈ s'.sending, d.request = some d.channel := by
  have ran : ∃ s, Run (Moves next) Fresh (start 0) s ∧ ∃ s' ∈ s.next (.lookup 1 [9]),
      s.Fresh (.lookup 1 [9]) ∧ s'.sending = [⟨some 1, 1, [9]⟩] ∧
      ∃ t ∈ [DisaggEvent.send 0, .cleanup 0, .receive 1, .cleanup 1].foldlM
        (checked next Fresh) s', ∀ p < t.userIDs.length, t.stage p ≠ .waiting := by
    apply Run.exists_of_checked [.genShortReqID "10.0.0.7", .genShortReqID "10.0.0.7", .register 0,
      .register 1]
    decide +kernel
  obtain ⟨s, before, s', move, fresh, sending, t, moves, ended⟩ := ran
  exact ⟨s, s', before, move, sending,
    (responses_apart before fresh move (Run.of_checked moves) ended).1⟩

end Disaggregator

end SkyAccel.Server
