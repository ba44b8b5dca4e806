import SkyAccel.Lib.Run
import SkyAccel.Lib.Dict

/-!
# The registry of listeners

`StartServerWithMgr`, `StartServerRun` and `StopServer` of `tcp-server.go` and
`udp-server.go`, the handlers of `server-manager.go` and the loop of `main.go` that starts
the configured listeners. A start opens a socket and registers it under its port; a
goroutine then takes what is registered there and serves it.

Both protocols use one map with the bare port as its key, and the goroutine of a TCP
listener asserts the type of what it finds. So two protocols on one port lose the first
listener, and a TCP listener that could not be opened ends the program (`registry_fails`).
Without these two the registry is right, and either of them spoils it
(`registry_faithful_iff`).
-/

namespace SkyAccel.Server

inductive Protocol
  | tcp
  | udp
  deriving DecidableEq

/-- A listener that was opened, with the start that opened it. -/
structure Socket where
  start : Nat
  protocol : Protocol
  port : Int
  deriving DecidableEq

/-- How far a start has come: before `net.Listen`, before its entry is made, before
`StartServerRun` looks the entry up, and after it or given up. -/
inductive StartStage
  | listening
  | opened
  | ready
  | finished
  deriving DecidableEq

/-- A start, by the loop of `main` or by a request to the API. -/
structure Start where
  protocol : Protocol
  port : Int
  api : Bool
  stage : StartStage
  deriving DecidableEq

inductive Outcome
  | serving (l : Socket)
  | exited
  | panicked
  deriving DecidableEq

/-- A call of `StartServerRun`, with the open listener of its protocol and port. -/
structure RunRecord where
  live : Option Socket
  outcome : Outcome
  deriving DecidableEq

/-- A call of `StopServer`, with the open listener of its protocol and port. -/
structure StopRecord where
  live : Option Socket
  closed : Option Socket
  deriving DecidableEq

/-- `started` are the sockets that were registered and are open. It and the records are not
part of the program. -/
structure Registry where
  listenerMap : Dict Int Socket
  portMap : Dict Int Bool
  starts : List Start
  started : List Socket
  runs : List RunRecord
  stops : List StopRecord
  crashed : Bool

inductive RegistryEvent
  | configure (protocol : Protocol) (port : Int)
  | apiStart (protocol : Protocol) (port : Int)
  | listen (i : Nat) (ok : Bool)
  | register (i : Nat)
  | run (i : Nat)
  | stop (protocol : Protocol) (port : Int)

namespace Registry

def init : Registry := ⟨∅, ∅, [], [], [], [], false⟩

/-- The open listener of a protocol and port. -/
def live (s : Registry) (protocol : Protocol) (port : Int) : Option Socket :=
  s.started.find? fun l => l.protocol = protocol ∧ l.port = port

/-- The entry of a port, if the type assertion of the protocol accepts it. -/
def asserted (s : Registry) (protocol : Protocol) (port : Int) : Option Socket :=
  (s.listenerMap.lookup port).filter (·.protocol = protocol)

def addStart (s : Registry) (protocol : Protocol) (port : Int) (api : Bool) : Registry :=
  { s with starts := s.starts ++ [⟨protocol, port, api, .listening⟩] }

def setStage (s : Registry) (i : Nat) (job : Start) (stage : StartStage) : Registry :=
  { s with starts := s.starts.set i { job with stage := stage } }

/-- The second half of `StartServerWithMgr`. -/
def register (s : Registry) (l : Socket) : Registry :=
  { s with
    listenerMap := s.listenerMap.insert l.port l
    portMap := s.portMap.insert l.port true
    started := s.started ++ [l] }

/-- What `StartServerRun` comes to. A panic on its goroutine ends the program. -/
def outcome (s : Registry) (protocol : Protocol) (port : Int) : Outcome :=
  match s.asserted protocol port with
  | some l => .serving l
  | none =>
    match protocol with
    | .tcp => .panicked
    | .udp => .exited

def startServerRun (s : Registry) (protocol : Protocol) (port : Int) : Registry :=
  { s with
    runs := s.runs ++ [⟨s.live protocol port, s.outcome protocol port⟩]
    crashed := s.outcome protocol port = .panicked }

/-- Stopping TCP on the port of a UDP listener panics too, but in a handler, where it is
recovered. -/
def stopServer (s : Registry) (protocol : Protocol) (port : Int) : Registry :=
  let record : StopRecord := ⟨s.live protocol port, s.asserted protocol port⟩
  match s.asserted protocol port with
  | some l =>
    { s with
      listenerMap := s.listenerMap.erase port
      portMap := s.portMap.erase port
      started := s.started.filter (· ≠ l)
      stops := s.stops ++ [record] }
  | none => { s with stops := s.stops ++ [record] }

def next (s : Registry) (e : RegistryEvent) : Option Registry :=
  if s.crashed then none
  else
    match e with
    | .configure protocol port => some (s.addStart protocol port false)
    | .apiStart protocol port =>
      if s.portMap.lookup port = some true then some s else some (s.addStart protocol port true)
    | .listen i ok => do
      let job ← s.starts[i]?
      if job.stage = .listening then
        -- `main` drops the error and goes on
        some (s.setStage i job (if ok then .opened else if job.api then .finished else .ready))
      else none
    | .register i => do
      let job ← s.starts[i]?
      if job.stage = .opened then
        some ((s.setStage i job .ready).register ⟨i, job.protocol, job.port⟩)
      else none
    | .run i => do
      let job ← s.starts[i]?
      if job.stage = .ready then
        some ((s.setStage i job .finished).startServerRun job.protocol job.port)
      else none
    | .stop protocol port => some (s.stopServer protocol port)

/-- Each goroutine got the listener of its protocol and port or left without one, the
registry has every open listener, and each stop closed the listener it was for. -/
structure Faithful (s : Registry) : Prop where
  run : ∀ r ∈ s.runs, r.outcome = r.live.elim .exited .serving
  reachable : ∀ l ∈ s.started, s.listenerMap.lookup l.port = some l
  stop : ∀ r ∈ s.stops, r.closed = r.live

/-- A listener is registered under a port without an entry, and a TCP goroutine finds a TCP
listener under its port. -/
def NoClash (s : Registry) : RegistryEvent → Prop
  | .register i => ∀ job ∈ s.starts[i]?, s.listenerMap.lookup job.port = none
  | .run i => ∀ job ∈ s.starts[i]?, job.protocol = .tcp → (s.asserted .tcp job.port).isSome
  | _ => True

/-- A start is for a protocol and port that has no open listener and no start before its
registration. -/
def Distinct (s : Registry) : RegistryEvent → Prop
  | .configure protocol port | .apiStart protocol port =>
    s.live protocol port = none ∧ ∀ job ∈ s.starts, job.protocol = protocol → job.port = port →
      job.stage = .ready ∨ job.stage = .finished
  | _ => True

instance (s : Registry) : (e : RegistryEvent) → Decidable (s.NoClash e)
  | .register i => inferInstanceAs (Decidable (∀ job ∈ s.starts[i]?, _))
  | .run i => inferInstanceAs (Decidable (∀ job ∈ s.starts[i]?, _))
  | .configure _ _ | .apiStart _ _ | .listen _ _ | .stop _ _ => isTrue trivial

instance (s : Registry) : (e : RegistryEvent) → Decidable (s.Distinct e)
  | .configure protocol port | .apiStart protocol port =>
    inferInstanceAs (Decidable (s.live protocol port = none ∧ ∀ job ∈ s.starts, _))
  | .listen _ _ | .register _ | .run _ | .stop _ _ => isTrue trivial

/-! ## What a step can do -/

/-- Start `i` is past its registration, or will have none. -/
def Registered (s : Registry) (i : Nat) : Prop :=
  ∃ job, s.starts[i]? = some job ∧ (job.stage = .ready ∨ job.stage = .finished)

section
variable {s s' : Registry} {e : RegistryEvent}

theorem registered_addStart {protocol : Protocol} {port : Int} {api : Bool} {i : Nat}
    (h : s.Registered i) : (s.addStart protocol port api).Registered i := by
  obtain ⟨job, at_, stage⟩ := h
  obtain ⟨lt, -⟩ := List.getElem?_eq_some_iff.mp at_
  exact ⟨job, (List.getElem?_append_left lt).trans at_, stage⟩

theorem registered_setStage {k i : Nat} {job : Start} {stage : StartStage}
    (at_ : s.starts[k]? = some job)
    (later : job.stage = .ready ∨ job.stage = .finished → stage = .ready ∨ stage = .finished)
    (h : s.Registered i) : (s.setStage k job stage).Registered i := by
  obtain ⟨job', at_', past⟩ := h
  by_cases same : k = i
  · subst same
    obtain rfl := Option.some.inj (at_.symm.trans at_')
    obtain ⟨lt, -⟩ := List.getElem?_eq_some_iff.mp at_
    exact ⟨_, List.getElem?_set_self lt, later past⟩
  · exact ⟨job', (List.getElem?_set_ne same).trans at_', past⟩

theorem registered_setStage_self {k : Nat} {job : Start} (at_ : s.starts[k]? = some job) :
    (s.setStage k job .ready).Registered k := by
  obtain ⟨lt, -⟩ := List.getElem?_eq_some_iff.mp at_
  exact ⟨_, List.getElem?_set_self lt, .inl rfl⟩

/-- A step begins or opens a listener, which changes the starts only, or registers one,
serves one or stops one. -/
theorem next_cases (h : s.next e = some s') :
    (s.NoClash e ∧ ∃ starts, s' = { s with starts := starts } ∧
        ∀ i, s.Registered i → s'.Registered i) ∨
      (∃ i job, e = .register i ∧ s.starts[i]? = some job ∧ job.stage = .opened ∧
        s' = (s.setStage i job .ready).register ⟨i, job.protocol, job.port⟩) ∨
      (∃ i job, e = .run i ∧ s.starts[i]? = some job ∧
        s' = (s.setStage i job .finished).startServerRun job.protocol job.port) ∨
      ∃ protocol port, e = .stop protocol port ∧ s' = s.stopServer protocol port := by
  unfold next at h
  split at h
  · cases h
  · cases e with
    | configure protocol port =>
      obtain rfl := Option.some.inj h
      exact .inl ⟨trivial, _, rfl, fun i => registered_addStart⟩
    | apiStart protocol port =>
      simp only at h
      split at h
      · obtain rfl := Option.some.inj h
        exact .inl ⟨trivial, s.starts, rfl, fun i => id⟩
      · obtain rfl := Option.some.inj h
        exact .inl ⟨trivial, _, rfl, fun i => registered_addStart⟩
    | listen i ok =>
      obtain ⟨job, at_, h⟩ := Option.bind_eq_some_iff.mp h
      split at h
      · rename_i stage
        obtain rfl := Option.some.inj h
        refine .inl ⟨trivial, _, rfl, fun k => registered_setStage at_ ?_⟩
        simp [stage]
      · cases h
    | register i =>
      obtain ⟨job, at_, h⟩ := Option.bind_eq_some_iff.mp h
      split at h
      · rename_i stage
        obtain rfl := Option.some.inj h
        exact .inr (.inl ⟨i, job, rfl, at_, stage, rfl⟩)
      · cases h
    | run i =>
      obtain ⟨job, at_, h⟩ := Option.bind_eq_some_iff.mp h
      split at h
      · obtain rfl := Option.some.inj h
        exact .inr (.inr (.inl ⟨i, job, rfl, at_, rfl⟩))
      · cases h
    | stop protocol port =>
      obtain rfl := Option.some.inj h
      exact .inr (.inr (.inr ⟨protocol, port, rfl, rfl⟩))

/-! ## What the registry keeps -/

/-- Beside being faithful, the registry has open listeners only, each under its port. -/
structure Kept (s : Registry) : Prop extends s.Faithful where
  entry : ∀ port l, s.listenerMap.lookup port = some l → l ∈ s.started ∧ l.port = port
  registered : ∀ l ∈ s.started, s.Registered l.start

theorem init_kept : init.Kept where
  run _ mem := nomatch mem
  reachable _ mem := nomatch mem
  stop _ mem := nomatch mem
  entry _ _ entry := nomatch entry
  registered _ mem := nomatch mem

theorem mem_asserted {protocol : Protocol} {port : Int} {l : Socket} :
    s.asserted protocol port = some l ↔
      s.listenerMap.lookup port = some l ∧ l.protocol = protocol := by
  simp only [asserted, Option.filter_eq_some_iff, decide_eq_true_eq]

/-- What the type assertion accepts is the open listener. -/
theorem Kept.asserted_eq_live (kept : s.Kept) (protocol : Protocol) (port : Int) :
    s.asserted protocol port = s.live protocol port := by
  cases found : s.live protocol port with
  | some l =>
    have pair := List.find?_some found
    simp only [decide_eq_true_eq] at pair
    obtain ⟨rfl, rfl⟩ := pair
    exact mem_asserted.mpr ⟨kept.reachable l (List.mem_of_find?_eq_some found), rfl⟩
  | none =>
    cases has : s.asserted protocol port with
    | none => rfl
    | some l =>
      obtain ⟨entry, own⟩ := mem_asserted.mp has
      obtain ⟨mem, at_⟩ := kept.entry port l entry
      have other := List.find?_eq_none.mp found l mem
      simp only [decide_eq_true_eq] at other
      exact absurd ⟨own, at_⟩ other

/-- The outcome of a goroutine is right unless it panics. -/
theorem Kept.outcome_iff (kept : s.Kept) (protocol : Protocol) (port : Int) :
    s.outcome protocol port = (s.live protocol port).elim .exited .serving ↔
      (protocol = .tcp → (s.asserted .tcp port).isSome) := by
  rw [← kept.asserted_eq_live]
  unfold outcome
  cases protocol <;> cases s.asserted _ port <;> simp

theorem Kept.setStarts (kept : s.Kept) {starts : List Start}
    (h : ∀ i, s.Registered i → Registered { s with starts := starts } i) :
    Kept { s with starts := starts } :=
  { kept with registered := fun l mem => h _ (kept.registered l mem) }

theorem Kept.register (kept : s.Kept) {l : Socket} (free : s.listenerMap.lookup l.port = none)
    (done : s.Registered l.start) : (s.register l).Kept where
  run := kept.run
  reachable k mem := by
    rw [Registry.register, Dict.lookup_insert]
    obtain mem | rfl : k ∈ s.started ∨ k = l := by simpa [Registry.register] using mem
    · have here := kept.reachable k mem
      have other : k.port ≠ l.port := by
        intro same
        rw [same, free] at here
        cases here
      rw [if_neg other]
      exact here
    · exact if_pos rfl
  stop := kept.stop
  entry port k entry := by
    rw [Registry.register, Dict.lookup_insert] at entry
    split at entry
    · rename_i own
      obtain rfl := Option.some.inj entry
      exact ⟨List.mem_append_right _ List.mem_cons_self, own.symm⟩
    · obtain ⟨mem, at_⟩ := kept.entry port k entry
      exact ⟨List.mem_append_left _ mem, at_⟩
  registered k mem := by
    obtain mem | rfl : k ∈ s.started ∨ k = l := by simpa [Registry.register] using mem
    · exact kept.registered k mem
    · exact done

/-- Registering a second listener under a port loses the first. -/
theorem Kept.register_taken (kept : s.Kept) {l k : Socket}
    (taken : s.listenerMap.lookup l.port = some k) (new : l ∉ s.started) :
    ¬ (s.register l).Faithful := by
  intro faithful
  obtain ⟨mem, at_⟩ := kept.entry _ _ taken
  have here := faithful.reachable k (List.mem_append_left _ mem)
  rw [Registry.register, Dict.lookup_insert, if_pos at_] at here
  obtain rfl := Option.some.inj here
  exact new mem

theorem Kept.stopServer (kept : s.Kept) (protocol : Protocol) (port : Int) :
    (s.stopServer protocol port).Kept := by
  have same := kept.asserted_eq_live protocol port
  have stops : ∀ r ∈ s.stops ++ [⟨s.live protocol port, s.asserted protocol port⟩],
      r.closed = r.live := by
    simp only [List.mem_append, List.mem_singleton]
    rintro r (mem | rfl)
    · exact kept.stop r mem
    · exact same
  simp only [Registry.stopServer]
  cases has : s.asserted protocol port with
  | none =>
    rw [has] at stops
    exact { kept with stop := stops }
  | some l =>
    rw [has] at stops
    obtain ⟨entry, -⟩ := mem_asserted.mp has
    obtain ⟨-, rfl⟩ := kept.entry port l entry
    refine ⟨⟨kept.run, fun k mem => ?_, stops⟩, fun port k entry' => ?_, fun k mem => ?_⟩
    · -- another listener has another port
      obtain ⟨mem, other⟩ := List.mem_filter.mp mem
      have here := kept.reachable k mem
      have apart : k.port ≠ l.port := by
        intro same
        rw [same] at here
        exact of_decide_eq_true other (Option.some.inj (here.symm.trans entry))
      simp only [Dict.lookup_erase, if_neg apart]
      exact here
    · simp only [Dict.lookup_erase] at entry'
      split at entry'
      · cases entry'
      · rename_i apart
        obtain ⟨mem, rfl⟩ := kept.entry port k entry'
        refine ⟨List.mem_filter.mpr ⟨mem, decide_eq_true ?_⟩, rfl⟩
        rintro rfl
        exact apart rfl
    · exact kept.registered k (List.mem_of_mem_filter mem)

theorem Kept.startServerRun (kept : s.Kept) {protocol : Protocol} {port : Int}
    (right : s.outcome protocol port = (s.live protocol port).elim .exited .serving) :
    (s.startServerRun protocol port).Kept := by
  refine { kept with run := ?_ }
  simp only [Registry.startServerRun, List.mem_append, List.mem_singleton]
  rintro r (mem | rfl)
  · exact kept.run r mem
  · exact right

/-- A step keeps a registry that is right exactly if it causes no clash. -/
theorem Kept.step (kept : s.Kept) (h : s.next e = some s') :
    s.NoClash e ∧ s'.Kept ∨ ¬ s.NoClash e ∧ ¬ s'.Faithful := by
  obtain ⟨clear, starts, rfl, past⟩ | ⟨i, job, rfl, at_, stage, rfl⟩ | ⟨i, job, rfl, at_, rfl⟩ |
    ⟨protocol, port, rfl, rfl⟩ := next_cases h
  · exact .inl ⟨clear, kept.setStarts past⟩
  · have kept' : (s.setStage i job .ready).Kept :=
      kept.setStarts fun k => registered_setStage at_ fun _ => .inl rfl
    simp only [NoClash, at_, Option.mem_some_iff, forall_eq']
    cases free : s.listenerMap.lookup job.port with
    | none => exact .inl ⟨rfl, kept'.register free (registered_setStage_self at_)⟩
    | some k =>
      refine .inr ⟨nofun, kept'.register_taken free fun mem => ?_⟩
      obtain ⟨job', at_', past⟩ := kept.registered _ mem
      obtain rfl := Option.some.inj (at_.symm.trans at_')
      simp [stage] at past
  · have kept' : (s.setStage i job .finished).Kept :=
      kept.setStarts fun k => registered_setStage at_ fun _ => .inr rfl
    have right := kept'.outcome_iff job.protocol job.port
    simp only [NoClash, at_, Option.mem_some_iff, forall_eq']
    by_cases clear : job.protocol = .tcp → (s.asserted .tcp job.port).isSome
    · exact .inl ⟨clear, kept'.startServerRun (right.mpr clear)⟩
    · refine .inr ⟨clear, fun faithful => clear (right.mp ?_)⟩
      exact faithful.run _ (List.mem_append_right _ List.mem_cons_self)
  · exact .inl ⟨trivial, kept.stopServer protocol port⟩

end

/-! ## Whole runs -/

/-- **The registry is right in every run without a clash**, and a step of such a run that
causes one spoils it. No start has to be for a port of its own for this. -/
theorem registry_faithful_iff {s : Registry} (run : Run (Moves next) NoClash init s) :
    s.Faithful ∧ ∀ e s', s.next e = some s' → (s'.Faithful ↔ s.NoClash e) := by
  have kept : s.Kept := by
    apply run.invariant (P := Kept) _ init_kept
    intro s e s' kept clear move
    obtain ⟨-, kept'⟩ | ⟨clash, -⟩ := kept.step move
    · exact kept'
    · exact absurd clear clash
  refine ⟨kept.toFaithful, fun e s' move => ?_⟩
  obtain ⟨clear, kept'⟩ | ⟨clash, fails⟩ := kept.step move
  · exact iff_of_true kept'.toFaithful clear
  · exact iff_of_false fails clash

/-- TCP and UDP on port 8081: the TCP listener is lost, and stopping it closes nothing. A
TCP port that is taken by another program: the goroutine panics. -/
theorem registry_fails :
    (∃ s, Run (Moves next) Distinct init s ∧ ⟨0, .tcp, 8081⟩ ∈ s.started ∧
      s.listenerMap.lookup 8081 = some ⟨1, .udp, 8081⟩ ∧
      s.stops = [⟨some ⟨0, .tcp, 8081⟩, none⟩]) ∧
    (∃ s, Run (Moves next) Distinct init s ∧ s.runs = [⟨some ⟨0, .tcp, 8081⟩, .panicked⟩]) ∧
    ∃ s, Run (Moves next) Distinct init s ∧ s.runs = [⟨none, .panicked⟩] := by
  refine ⟨?_, ?_, ?_⟩
  · apply Run.exists_of_checked [.configure .tcp 8081, .listen 0 true, .register 0, .run 0,
      .configure .udp 8081, .listen 1 true, .register 1, .stop .tcp 8081]
    decide +kernel
  · apply Run.exists_of_checked [.configure .tcp 8081, .listen 0 true, .register 0,
      .configure .udp 8081, .listen 1 true, .register 1, .run 0]
    decide +kernel
  · apply Run.exists_of_checked [.configure .tcp 8081, .listen 0 false, .run 0]
    decide +kernel

/-- A configured TCP listener and a UDP listener started by the API on another port, which
is stopped again. -/
theorem registry_two_ports :
    ∃ s, Run (Moves next) (fun s e => s.Distinct e ∧ s.NoClash e) init s ∧
      s.started = [⟨0, .tcp, 8081⟩] ∧ s.stops = [⟨some ⟨1, .udp, 8082⟩, some ⟨1, .udp, 8082⟩⟩] ∧
      s.Faithful := by
  have found : ∃ s, Run (Moves next) (fun s e => s.Distinct e ∧ s.NoClash e) init s ∧
      s.started = [⟨0, .tcp, 8081⟩] ∧
      s.stops = [⟨some ⟨1, .udp, 8082⟩, some ⟨1, .udp, 8082⟩⟩] := by
    apply Run.exists_of_checked [.configure .tcp 8081, .listen 0 true, .register 0, .run 0,
      .apiStart .udp 8082, .listen 1 true, .register 1, .run 1, .stop .udp 8082]
    decide +kernel
  obtain ⟨s, run, started, stops⟩ := found
  exact ⟨s, run, started, stops, (registry_faithful_iff (run.mono fun _ _ => And.right)).1⟩

end Registry

end SkyAccel.Server
