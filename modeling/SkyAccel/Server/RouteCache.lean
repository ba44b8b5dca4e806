import SkyAccel.Lib.Run
import SkyAccel.Lib.Dict
import SkyAccel.Lib.Strings

/-!
# The route cache of the listeners

`routing.go`, `handler.go` and the three copies of the cache logic in `tcp-server.go` and
`udp-server.go`. A request reads the entry of its port. Without an entry it asks the
control plane itself, and after the deadline it goes on with the old route while a
goroutine asks; whatever comes back is stored.

The guards before the stores test for `nil`, but a query that fails returns an empty
`RoutingInfo`. So a failed refresh takes the route of its port away (`route_emptied`), and
nothing else does (`route_kept_iff`).
-/

namespace SkyAccel.Server

structure PathInfo where
  hops : List String
  rtt : ℚ
  rawRTT : ℚ
  deriving DecidableEq

structure RoutingInfo where
  routing : List PathInfo
  deriving DecidableEq

/-- The parts of the configuration that routing reads. -/
structure ProxyConfig where
  publicIP : String
  testPathMap : Dict Int String

/-- How the exchange with the control plane ends. -/
inductive Answer
  | marshalFailed
  | postFailed
  | readFailed
  | unmarshalFailed
  | response (code : Int) (data : RoutingInfo)
  deriving DecidableEq

def Answer.successful : Answer → Bool
  | .response code _ => code == 200
  | _ => false

/-- The local test route of a port, if there is one that starts at this node. -/
def testRoute (cfg : ProxyConfig) (port : Int) : Option RoutingInfo :=
  match cfg.testPathMap.lookup port with
  | none => none
  | some path =>
    let hops := Strings.split path ","
    if 2 ≤ hops.length ∧ hops[0]? = some cfg.publicIP then some ⟨[⟨hops, 0, 0⟩]⟩ else none

/-- The pointer that `GetRoutingFromControlPlane` returns. -/
def getRoutingFromControlPlane (cfg : ProxyConfig) (port : Int) (answer : Answer) :
    Option RoutingInfo :=
  match testRoute cfg port with
  | some info => some info
  | none =>
    match answer with
    | .response code data => if code ≠ 200 then some ⟨[]⟩ else some data
    | _ => some ⟨[]⟩

/-- The three places that use the cache. -/
inductive Listener
  | tcp
  | keepAlive
  | udp
  deriving DecidableEq

/-- A query under way, by a request that found no entry or in the background. -/
structure Query where
  listener : Listener
  port : Int
  background : Bool
  deriving DecidableEq

/-- A request over UDP that found no entry stores what it gets without a test. -/
def Query.testsNil (q : Query) : Bool := q.listener != .udp || q.background

/-- The type `routingInfo`; times are in milliseconds. -/
structure CacheEntry where
  info : Option RoutingInfo
  deadline : Int
  deriving DecidableEq

structure RouteCache where
  routingMap : Dict Int CacheEntry
  queries : List Query

def routeTimeout : Int := 1000

/-- A request reads its entry at some time, or a query comes back and its store is made. -/
inductive CacheEvent
  | request (listener : Listener) (port : Int) (now : Int)
  | answered (i : Nat) (answer : Answer) (now : Int)

namespace RouteCache
variable (cfg : ProxyConfig)

def init : RouteCache := ⟨∅, []⟩

/-- The store at the end of a query. -/
def store (s : RouteCache) (q : Query) (info : Option RoutingInfo) (now : Int) : RouteCache :=
  if info.isNone ∧ q.testsNil then s
  else { s with routingMap := s.routingMap.insert q.port ⟨info, now + routeTimeout⟩ }

def next (s : RouteCache) : CacheEvent → Option RouteCache
  | .request listener port now =>
    match s.routingMap.lookup port with
    | none => some { s with queries := s.queries ++ [⟨listener, port, false⟩] }
    | some ri =>
      if ri.deadline < now then some { s with queries := s.queries ++ [⟨listener, port, true⟩] }
      else some s
  | .answered i answer now =>
    match s.queries[i]? with
    | none => none
    | some q =>
      some ({ s with queries := s.queries.eraseIdx i }.store q
        (getRoutingFromControlPlane cfg q.port answer) now)

/-- The entry of the port holds at least one path. -/
def HasPath (s : RouteCache) (port : Int) : Prop :=
  ∃ ri ∈ s.routingMap.lookup port, ∃ info ∈ ri.info, info.routing ≠ []

instance (s : RouteCache) (port : Int) : Decidable (s.HasPath port) :=
  inferInstanceAs (Decidable (∃ ri ∈ s.routingMap.lookup port, ∃ info ∈ ri.info, info.routing ≠ []))

/-- The query that an event brings an answer to, with the answer. -/
def answerTo (s : RouteCache) : CacheEvent → Option (Query × Answer)
  | .request _ _ _ => none
  | .answered i answer _ => s.queries[i]?.map fun q => (q, answer)

/-- No query for a port whose entry holds a path fails. -/
def NoFailure (s : RouteCache) (e : CacheEvent) : Prop :=
  ∀ x ∈ s.answerTo e, s.HasPath x.1.port →
    (testRoute cfg x.1.port).isSome ∨ x.2.successful = true

instance (s : RouteCache) (e : CacheEvent) : Decidable (s.NoFailure cfg e) :=
  inferInstanceAs (Decidable (∀ x ∈ s.answerTo e, s.HasPath x.1.port →
    (testRoute cfg x.1.port).isSome ∨ x.2.successful = true))

/-- A successful answer of the control plane replaces the entry of the port. -/
def Replaces (port : Int) (s : RouteCache) (e : CacheEvent) : Prop :=
  ∃ x ∈ s.answerTo e, x.1.port = port ∧ testRoute cfg port = none ∧ x.2.successful = true

instance (port : Int) (s : RouteCache) (e : CacheEvent) : Decidable (s.Replaces cfg port e) :=
  inferInstanceAs (Decidable (∃ x ∈ s.answerTo e, x.1.port = port ∧ testRoute cfg port = none ∧
    x.2.successful = true))

/-! ## What a query returns -/

section
variable {cfg : ProxyConfig} {port : Int} {answer : Answer}

theorem testRoute_ne_nil {info : RoutingInfo} (h : testRoute cfg port = some info) :
    info.routing ≠ [] := by
  unfold testRoute at h
  split at h
  · cases h
  · simp only at h
    split at h
    · obtain rfl := Option.some.inj h
      exact List.cons_ne_nil _ _
    · cases h

/-- A query never returns `nil`. -/
theorem exists_routing (cfg : ProxyConfig) (port : Int) (answer : Answer) :
    ∃ info, getRoutingFromControlPlane cfg port answer = some info := by
  unfold getRoutingFromControlPlane
  split
  · exact ⟨_, rfl⟩
  · split
    · split
      · exact ⟨_, rfl⟩
      · exact ⟨_, rfl⟩
    · exact ⟨_, rfl⟩

theorem routing_of_testRoute {info : RoutingInfo} (h : testRoute cfg port = some info) :
    getRoutingFromControlPlane cfg port answer = some info := by
  simp only [getRoutingFromControlPlane, h]

/-- A failure is an empty answer. -/
theorem routing_of_failure (none : testRoute cfg port = none) (failed : answer.successful = false) :
    getRoutingFromControlPlane cfg port answer = some ⟨[]⟩ := by
  simp only [getRoutingFromControlPlane, none]
  cases answer with
  | response code data =>
    have other : code ≠ 200 := by simpa [Answer.successful] using failed
    exact if_pos other
  | _ => rfl

/-! ## What a step can do -/

variable {s s' : RouteCache} {e : CacheEvent}

theorem next_cases (h : s.next cfg e = some s') :
    s.answerTo e = none ∧ s'.routingMap = s.routingMap ∨
      ∃ q answer info deadline, s.answerTo e = some (q, answer) ∧
        getRoutingFromControlPlane cfg q.port answer = some info ∧
        s'.routingMap = s.routingMap.insert q.port ⟨some info, deadline⟩ := by
  cases e with
  | request listener port now =>
    refine .inl ⟨rfl, ?_⟩
    simp only [next] at h
    split at h
    · obtain rfl := Option.some.inj h
      rfl
    · split at h <;> obtain rfl := Option.some.inj h <;> rfl
  | answered i answer now =>
    simp only [next] at h
    split at h
    · cases h
    · rename_i q at_
      obtain ⟨info, returned⟩ := exists_routing cfg q.port answer
      obtain rfl := Option.some.inj h
      refine .inr ⟨q, answer, info, now + routeTimeout, by simp only [answerTo, at_, Option.map_some],
        returned, ?_⟩
      rw [returned]
      rfl

theorem hasPath_insert {q : Int} {info : RoutingInfo} {deadline : Int}
    (map : s'.routingMap = s.routingMap.insert q ⟨some info, deadline⟩) :
    s'.HasPath port ↔ if port = q then info.routing ≠ [] else s.HasPath port := by
  simp only [HasPath, map, Dict.lookup_insert]
  split
  · simp only [Option.mem_some_iff, exists_eq_left']
  · rfl

/-- A step that brings no successful answer for a port keeps its path, unless a query for
the port fails. -/
theorem hasPath_step_iff (h : s.next cfg e = some s') (before : s.HasPath port)
    (other : ¬ s.Replaces cfg port e) :
    s'.HasPath port ↔ ∀ x ∈ s.answerTo e, x.1.port = port → (testRoute cfg port).isSome := by
  obtain ⟨none, map⟩ | ⟨q, answer, info, deadline, query, returned, map⟩ := next_cases h
  · simp only [HasPath, map, none, Option.not_mem_none, false_implies, implies_true, iff_true]
    exact before
  · simp only [hasPath_insert map, query, Option.mem_some_iff, forall_eq']
    by_cases own : port = q.port
    · subst own
      simp only [if_true, forall_const]
      cases test : testRoute cfg q.port with
      | some local_ =>
        obtain rfl := Option.some.inj ((routing_of_testRoute test).symm.trans returned)
        exact iff_of_true (testRoute_ne_nil test) rfl
      | none =>
        have failed : answer.successful = false := by
          by_contra successful
          exact other ⟨(q, answer), query, rfl, test, Bool.eq_true_of_not_eq_false successful⟩
        obtain rfl := Option.some.inj ((routing_of_failure test failed).symm.trans returned)
        exact iff_of_false (fun more => more rfl) Bool.false_ne_true
    · simp only [if_neg own, Ne.symm own, false_implies, iff_true]
      exact before

end

/-! ## Keeping a route -/

/-- **A route is kept until an answer replaces it**, in every run in which no query fails
for a port whose entry holds a path. A step in which one fails takes the path away. -/
theorem route_kept_iff (port : Int) :
    (∀ s s', Run (Moves (next cfg)) (fun s e => s.NoFailure cfg e ∧ ¬ s.Replaces cfg port e) s s' →
      s.HasPath port → s'.HasPath port) ∧
    ∀ (s : RouteCache) (e : CacheEvent) s', s.next cfg e = some s' → ¬ s.NoFailure cfg e →
      ∃ port, s.HasPath port ∧ ¬ s.Replaces cfg port e ∧ ¬ s'.HasPath port := by
  constructor
  · intro s s' run
    apply run.invariant (P := fun s => s.HasPath port)
    rintro s e s' before ⟨sound, other⟩ move
    apply (hasPath_step_iff move before other).mpr
    rintro x query rfl
    cases test : testRoute cfg x.1.port with
    | some info => rfl
    | none =>
      have successful := (sound x query before).resolve_left (by simp [test])
      exact absurd ⟨x, query, rfl, test, successful⟩ other
  · intro s e s' move failure
    unfold NoFailure at failure
    push Not at failure
    obtain ⟨x, query, before, test, failed⟩ := failure
    have other : ¬ s.Replaces cfg x.1.port e := by
      rintro ⟨y, query', -, -, successful⟩
      obtain rfl := Option.mem_unique query query'
      exact failed successful
    refine ⟨x.1.port, before, other, fun after => ?_⟩
    exact test ((hasPath_step_iff move before other).mp after x query rfl)

/-- A proxy without test routes, and an answer with one path. -/
def plain : ProxyConfig := ⟨"10.0.0.1", ∅⟩

def onePath : Answer := .response 200 ⟨[⟨["10.0.0.1", "10.0.0.2", "10.0.0.3:80"], 1, 1⟩]⟩

/-- The entry of port 8081 is past its deadline when a request comes in. The control plane
does not answer the query in the background, and the route is gone. -/
theorem route_emptied :
    ∃ s, Run (Moves (next plain)) (fun _ _ => True) init s ∧ s.HasPath 8081 ∧
      ∃ s', Run (Moves (next plain)) (fun s e => ¬ s.Replaces plain 8081 e) s s' ∧
        s'.routingMap.lookup 8081 = some ⟨some ⟨[]⟩, 3001⟩ ∧ ¬ s'.HasPath 8081 := by
  have start : ∃ s, Run (Moves (next plain)) (fun _ _ => True) init s ∧ s.HasPath 8081 ∧
      ∃ s' ∈ [CacheEvent.request .keepAlive 8081 2000, .answered 0 .postFailed 2001].foldlM
        (checked (next plain) fun s e => ¬ s.Replaces plain 8081 e) s,
        s'.routingMap.lookup 8081 = some ⟨some ⟨[]⟩, 3001⟩ ∧ ¬ s'.HasPath 8081 := by
    apply Run.exists_of_checked [.request .tcp 8081 0, .answered 0 onePath 1]
    decide +kernel
  obtain ⟨s, run, path, after⟩ := start
  exact ⟨s, run, path, Run.exists_of_checked _ after⟩

/-- A failure for a port without a route leaves the route of port 8081 alone. -/
theorem route_kept_elsewhere :
    ∃ s, s.HasPath 8081 ∧ ∃ s', Run (Moves (next plain))
        (fun s e => s.NoFailure plain e ∧ ¬ s.Replaces plain 8081 e) s s' ∧
      s'.routingMap.lookup 9000 = some ⟨some ⟨[]⟩, 3001⟩ ∧ s'.HasPath 8081 := by
  have start : ∃ s, Run (Moves (next plain)) (fun _ _ => True) init s ∧ s.HasPath 8081 ∧
      ∃ s' ∈ [CacheEvent.request .udp 9000 2000, .answered 0 (.response 500 ⟨[]⟩) 2001].foldlM
        (checked (next plain) fun s e => s.NoFailure plain e ∧ ¬ s.Replaces plain 8081 e) s,
        s'.routingMap.lookup 9000 = some ⟨some ⟨[]⟩, 3001⟩ := by
    apply Run.exists_of_checked [.request .tcp 8081 0, .answered 0 onePath 1]
    decide +kernel
  obtain ⟨s, -, path, after⟩ := start
  obtain ⟨s', run, empty⟩ := Run.exists_of_checked _ after
  exact ⟨s, path, s', run, empty, (route_kept_iff plain 8081).1 s s' run path⟩

end RouteCache

end SkyAccel.Server
