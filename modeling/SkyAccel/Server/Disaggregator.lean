import SkyAccel.Lib.Run
import SkyAccel.Lib.Dict
import SkyAccel.Lib.Net

/-!
# Responses and the requests that wait for them

An ingress node numbers its requests (`GenShortReqID`), registers a channel for each
(`Register`), puts a response on the channel that is registered under its number
(`Deliver`) and at last removes the registration and closes the channel (`cleanup`).
`Deliver` looks the channel up under a lock and sends on it without.

A cleanup between the lookup and the send of a response closes a channel that is then sent
on (`send_on_closed`), and without that none is (`never_closed_send`).
-/

namespace SkyAccel.Server

/-! ## Numbers -/

/-- The last byte of an IPv4 address. -/
def ipSegment (clientIP : String) : UInt32 :=
  match Net.parseIPTo4 clientIP with
  | some ip => ip &&& 0xFF
  | none => 0

/-- `GenShortReqID`, with the counter it has added one to. -/
def genShortReqID (seq : UInt64) (clientIP : String) : UInt32 :=
  (ipSegment clientIP <<< 24) ||| (seq.toUInt32 &&& 0xFFFFFF)

/-! ## The machine -/

inductive Stage
  | generated
  | waiting
  | cleaned
  deriving DecidableEq

/-- A call of `Deliver` between the lookup and the send, with the request that it answers. -/
structure Delivery where
  request : Option Nat
  channel : Nat
  data : List UInt8
  deriving DecidableEq

/-- Requests are counted in the order of their numbers. Each has a channel of its own, which
holds at most one response, with the request that it answers, and is closed when the request
is cleaned up. -/
structure Disaggregator where
  reqSeq : UInt64
  userIDs : List UInt32
  stage : Nat → Stage
  waiters : Dict UInt32 Nat
  channel : Nat → Option (Option Nat × List UInt8)
  sending : List Delivery
  panicked : Bool

/-- `lookup q data` and `send` are the two halves of `Deliver`, called with the number of
request `q`. A `stray` lookup is one for a number that no request has. -/
inductive DisaggEvent
  | genShortReqID (clientIP : String)
  | register (p : Nat)
  | lookup (q : Nat) (data : List UInt8)
  | stray (userID : UInt32) (data : List UInt8)
  | send (i : Nat)
  | receive (p : Nat)
  | cleanup (p : Nat)

namespace DisaggEvent

/-- The request that the event cleans up. -/
def cleans : DisaggEvent → Option Nat
  | .cleanup p => some p
  | _ => none

end DisaggEvent

namespace Disaggregator

def start (reqSeq : UInt64) : Disaggregator where
  reqSeq := reqSeq
  userIDs := []
  stage _ := .generated
  waiters := ∅
  channel _ := none
  sending := []
  panicked := false

/-- The first half of `Deliver`. -/
def lookup (s : Disaggregator) (request : Option Nat) (userID : UInt32) (data : List UInt8) :
    Disaggregator :=
  match s.waiters.lookup userID with
  | some ch => { s with sending := s.sending ++ [⟨request, ch, data⟩] }
  | none => s

/-- The second half of `Deliver`. Sending on a closed channel ends the program, and on a
full one it has to wait. -/
def send (s : Disaggregator) (i : Nat) (d : Delivery) : Option Disaggregator :=
  if s.stage d.channel = .cleaned then some { s with panicked := true }
  else if s.channel d.channel = none then
    some { s with
      channel := Function.update s.channel d.channel (some (d.request, d.data))
      sending := s.sending.eraseIdx i }
  else none

def next (s : Disaggregator) (e : DisaggEvent) : Option Disaggregator :=
  if s.panicked then none
  else
    match e with
    | .genShortReqID clientIP =>
      let seq := s.reqSeq + 1
      some { s with
        reqSeq := seq
        userIDs := s.userIDs ++ [Server.genShortReqID seq clientIP] }
    | .register p => do
      let userID ← s.userIDs[p]?
      if s.stage p = .generated then
        some { s with
          stage := Function.update s.stage p .waiting
          waiters := s.waiters.insert userID p }
      else none
    | .lookup q data => do
      let userID ← s.userIDs[q]?
      some (s.lookup (some q) userID data)
    | .stray userID data =>
      if userID ∈ s.userIDs then none else some (s.lookup none userID data)
    | .send i => do
      let d ← s.sending[i]?
      s.send i d
    | .receive p =>
      if s.stage p = .waiting ∧ s.channel p ≠ none then
        some { s with channel := Function.update s.channel p none }
      else none
    | .cleanup p => do
      let userID ← s.userIDs[p]?
      if s.stage p = .waiting then
        some { s with
          stage := Function.update s.stage p .cleaned
          waiters := s.waiters.erase userID }
      else none

/-! ## What a step can do -/

inductive Step (s : Disaggregator) : DisaggEvent → Disaggregator → Prop
  | genShortReqID (clientIP : String) : Step s (.genShortReqID clientIP) { s with
      reqSeq := s.reqSeq + 1
      userIDs := s.userIDs ++ [Server.genShortReqID (s.reqSeq + 1) clientIP] }
  | register {p : Nat} {userID : UInt32} : s.userIDs[p]? = some userID →
      s.stage p = .generated → Step s (.register p) { s with
        stage := Function.update s.stage p .waiting
        waiters := s.waiters.insert userID p }
  | found {q ch : Nat} {data : List UInt8} {userID : UInt32} : s.userIDs[q]? = some userID →
      s.waiters.lookup userID = some ch →
      Step s (.lookup q data) { s with sending := s.sending ++ [⟨some q, ch, data⟩] }
  | stray {ch : Nat} {data : List UInt8} {userID : UInt32} : userID ∉ s.userIDs →
      s.waiters.lookup userID = some ch →
      Step s (.stray userID data) { s with sending := s.sending ++ [⟨none, ch, data⟩] }
  | drop {e : DisaggEvent} {userID : UInt32} : e.cleans = none →
      s.waiters.lookup userID = none → Step s e s
  | panic {i : Nat} {d : Delivery} : d ∈ s.sending → s.stage d.channel = .cleaned →
      Step s (.send i) { s with panicked := true }
  | send {i : Nat} {d : Delivery} : d ∈ s.sending → s.stage d.channel ≠ .cleaned →
      Step s (.send i) { s with
        channel := Function.update s.channel d.channel (some (d.request, d.data))
        sending := s.sending.eraseIdx i }
  | receive (p : Nat) :
      Step s (.receive p) { s with channel := Function.update s.channel p none }
  | cleanup {p : Nat} {userID : UInt32} : s.userIDs[p]? = some userID → s.stage p = .waiting →
      Step s (.cleanup p) { s with
        stage := Function.update s.stage p .cleaned
        waiters := s.waiters.erase userID }

theorem step_of_next {s s' : Disaggregator} {e : DisaggEvent} (h : s.next e = some s') :
    s.panicked = false ∧ Step s e s' := by
  unfold next at h
  split at h
  · cases h
  · rename_i running
    refine ⟨by simpa using running, ?_⟩
    split at h
    · obtain rfl := Option.some.inj h
      exact .genShortReqID _
    · obtain ⟨userID, number, h⟩ := Option.bind_eq_some_iff.mp h
      split at h
      · rename_i new
        obtain rfl := Option.some.inj h
        exact .register number new
      · cases h
    · obtain ⟨userID, number, h⟩ := Option.bind_eq_some_iff.mp h
      obtain rfl := Option.some.inj h
      unfold Disaggregator.lookup
      split
      · rename_i found
        exact .found number found
      · rename_i none
        exact .drop rfl none
    · split at h
      · cases h
      · rename_i other
        obtain rfl := Option.some.inj h
        unfold Disaggregator.lookup
        split
        · rename_i found
          exact .stray other found
        · rename_i none
          exact .drop rfl none
    · obtain ⟨d, held, h⟩ := Option.bind_eq_some_iff.mp h
      have held := List.mem_of_getElem? held
      unfold Disaggregator.send at h
      split at h
      · rename_i closed
        obtain rfl := Option.some.inj h
        exact .panic held closed
      · rename_i opened
        split at h
        · obtain rfl := Option.some.inj h
          exact .send held opened
        · cases h
    · split at h
      · obtain rfl := Option.some.inj h
        exact .receive _
      · cases h
    · obtain ⟨userID, number, h⟩ := Option.bind_eq_some_iff.mp h
      split at h
      · rename_i waiting
        obtain rfl := Option.some.inj h
        exact .cleanup number waiting
      · cases h

/-! ## Registrations -/

/-- What is registered waits, under its own number. -/
def Registered (s : Disaggregator) : Prop :=
  ∀ userID ch, s.waiters.lookup userID = some ch →
    s.userIDs[ch]? = some userID ∧ s.stage ch = .waiting

theorem getElem?_snoc {userIDs : List UInt32} {p : Nat} {userID : UInt32}
    (h : userIDs[p]? = some userID) (new : UInt32) : (userIDs ++ [new])[p]? = some userID := by
  obtain ⟨inside, -⟩ := List.getElem?_eq_some_iff.mp h
  rw [List.getElem?_append_left inside, h]

/-- A request goes on waiting until it is cleaned up. -/
theorem waiting_step {s s' : Disaggregator} {e : DisaggEvent} (step : Step s e s') {p : Nat}
    (waiting : s.stage p = .waiting) (stays : e.cleans ≠ some p) : s'.stage p = .waiting := by
  cases step with
  | genShortReqID | found | stray | drop | panic | send | receive => exact waiting
  | register _ new =>
    change Function.update s.stage _ _ p = _
    rw [Function.update_of_ne, waiting]
    rintro rfl
    rw [waiting] at new
    cases new
  | cleanup =>
    change Function.update s.stage _ _ p = _
    rw [Function.update_of_ne, waiting]
    rintro rfl
    exact stays rfl

theorem registered_step {s s' : Disaggregator} {e : DisaggEvent} (inv : s.Registered)
    (step : Step s e s') : s'.Registered := by
  intro id ch found
  have waits := waiting_step step (p := ch)
  cases step with
  | genShortReqID clientIP =>
    obtain ⟨number, waiting⟩ := inv id ch found
    exact ⟨getElem?_snoc number _, waiting⟩
  | register number new =>
    rw [Dict.lookup_insert] at found
    split at found
    · rename_i same
      obtain rfl := Option.some.inj found
      exact ⟨same ▸ number, Function.update_self _ _ _⟩
    · obtain ⟨number', waiting⟩ := inv id ch found
      exact ⟨number', waits waiting (Option.some_ne_none ch).symm⟩
  | found | stray | drop | panic | send | receive => exact inv id ch found
  | cleanup number _ =>
    rw [Dict.lookup_erase] at found
    split at found
    · cases found
    · rename_i other
      obtain ⟨number', waiting⟩ := inv id ch found
      refine ⟨number', waits waiting fun own => ?_⟩
      obtain rfl := Option.some.inj own
      rw [number] at number'
      exact other (Option.some.inj number').symm

/-! ## Closed channels -/

/-- No response is on its way to the channel that the event closes. -/
def Clear (s : Disaggregator) (e : DisaggEvent) : Prop :=
  ∀ d ∈ s.sending, e.cleans ≠ some d.channel

instance (s : Disaggregator) (e : DisaggEvent) : Decidable (s.Clear e) :=
  inferInstanceAs (Decidable (∀ d ∈ s.sending, e.cleans ≠ some d.channel))

/-- What is looked up is registered, and stays open until it is sent on. -/
structure Safe (s : Disaggregator) : Prop where
  registered : s.Registered
  opened : ∀ d ∈ s.sending, s.stage d.channel = .waiting
  running : s.panicked = false

theorem safe_step {s s' : Disaggregator} {e : DisaggEvent} (inv : s.Safe) (clear : s.Clear e)
    (step : Step s e s') : s'.Safe := by
  have registered := registered_step inv.registered step
  have opened : ∀ d ∈ s.sending, s'.stage d.channel = .waiting := fun d held =>
    waiting_step step (inv.opened d held) (clear d held)
  cases step with
  | genShortReqID | register | drop | receive | cleanup => exact ⟨registered, opened, inv.running⟩
  | found number found =>
    refine ⟨registered, fun d mem => ?_, inv.running⟩
    obtain old | rfl := by simpa using mem
    · exact opened d old
    · exact (inv.registered _ _ found).2
  | stray other found =>
    exact absurd (List.mem_of_getElem? (inv.registered _ _ found).1) other
  | panic held closed =>
    rw [inv.opened _ held] at closed
    cases closed
  | send =>
    refine ⟨registered, fun d mem => ?_, inv.running⟩
    exact opened d (List.mem_of_mem_eraseIdx mem)

theorem safe_start (reqSeq : UInt64) : (start reqSeq).Safe := by
  constructor
  case registered =>
    intro userID ch none
    cases none
  case opened =>
    intro d none
    cases none
  case running => rfl

/-- **No send on a closed channel.** In a run in which no channel is closed between the
lookup and the send of a response, the program never panics. -/
theorem never_closed_send {reqSeq : UInt64} {s : Disaggregator}
    (run : Run (Moves next) Clear (start reqSeq) s) : s.panicked = false := by
  have safe : s.Safe := by
    apply run.invariant _ (safe_start reqSeq)
    exact fun _ _ _ inv clear move => safe_step inv clear (step_of_next move).2
  exact safe.running

/-- The response is looked up, the request gives up waiting, and the response is sent. -/
theorem send_on_closed :
    ∃ s, Run (Moves next) (fun _ _ => True) (start 0) s ∧ s.panicked = true := by
  apply Run.exists_of_checked [.genShortReqID "10.0.0.7", .register 0, .lookup 0 [1], .cleanup 0,
    .send 0]
  decide +kernel

theorem never_closed_send_late :
    ∃ s, Run (Moves next) Clear (start 0) s ∧ s.stage 0 = .cleaned ∧ s.panicked = false := by
  have ran : ∃ s, Run (Moves next) Clear (start 0) s ∧ s.stage 0 = .cleaned := by
    apply Run.exists_of_checked [.genShortReqID "10.0.0.7", .register 0, .lookup 0 [1], .send 0,
      .receive 0, .cleanup 0, .lookup 0 [1]]
    decide +kernel
  obtain ⟨s, run, cleaned⟩ := ran
  exact ⟨s, run, cleaned, never_closed_send run⟩

end Disaggregator

end SkyAccel.Server
