import SkyAccel.Lib.Run
import SkyAccel.Lib.Store
import SkyAccel.Backsourcer.ConnPool
import Mathlib.Data.Multiset.Range

/-!
# Who owns a connection

The callers of the pool, one for each call of `Get`, and the connections that were dialled
and closed. Each connection is idle, held by a caller or closed, and it is only one of
these: they add up to the connections dialled (`Owned`), whatever steps the callers,
`cleanup` and `Close` take (`owned_step`).
-/

namespace SkyAccel.Backsourcer

/-- What `DoRequest` puts back after a successful `Get`, by whether the write and the read
succeed: the address, the connection and whether it is healthy. -/
def doRequest (addr : String) (conn : Nat) (wrote read : Bool) : List (String × Nat × Bool) :=
  if wrote = false then [(addr, conn, false)]
  else if read = false then [(addr, conn, false)]
  else [(addr, conn, true)]

/-- `DoRequest` puts a connection back once, under the address that it got it for. -/
theorem doRequest_once (addr : String) (conn : Nat) (wrote read : Bool) :
    ∃ healthy, doRequest addr conn wrote read = [(addr, conn, healthy)] := by
  unfold doRequest
  split
  · exact ⟨false, rfl⟩
  · split
    · exact ⟨false, rfl⟩
    · exact ⟨true, rfl⟩

/-- Where a call of `Get` stands: it dials, or its caller holds the connection, or the dial
has failed or the connection was put back. -/
inductive Call
  | dialling (addr : String)
  | holding (addr : String) (conn : Nat)
  | ended
  deriving DecidableEq

/-- The connection that the caller holds, if any. -/
def Call.conns : Call → List Nat
  | .holding _ conn => [conn]
  | _ => []

/-- `dialled` has the address of each connection, and `closed` the ones that the pool has
closed. -/
structure System where
  pool : TCPConnPool
  calls : List Call
  dialled : List String
  closed : List Nat

inductive Event
  | get (addr : String) (clock : Nat → Int)
  | dialTimeout (i : Nat) (ok : Bool)
  | put (i : Nat) (healthy : Bool) (created lastUsed : Int)
  | cleanup (c : Choices) (now : Int)
  | close (c : Choices)

namespace System

def init (maxIdle maxLifetime : Int) : System :=
  ⟨.newTCPConnPool maxIdle maxLifetime, [], [], []⟩

/-- The pool after an operation. -/
def after (s : System) (out : TCPConnPool.Outcome) : System :=
  { s with pool := out.1, closed := s.closed ++ out.2 }

/-- A call puts its connection back once, under the address that it asked for. -/
def next (s : System) : Event → Option System
  | .get addr clock =>
    let (out, taken) := s.pool.get addr clock
    match taken with
    | some conn => some { s.after out with calls := s.calls ++ [.holding addr conn] }
    | none => some { s.after out with calls := s.calls ++ [.dialling addr] }
  | .dialTimeout i ok =>
    match s.calls[i]? with
    | some (.dialling addr) =>
      if ok then
        some { s with
          calls := s.calls.set i (.holding addr s.dialled.length)
          dialled := s.dialled ++ [addr] }
      else some { s with calls := s.calls.set i .ended }
    | _ => none
  | .put i healthy created lastUsed =>
    match s.calls[i]? with
    | some (.holding addr conn) =>
      some { s.after (s.pool.put addr (some conn) healthy created lastUsed) with
        calls := s.calls.set i .ended }
    | _ => none
  | .cleanup c now => some (s.after (s.pool.cleanup c now))
  | .close c => some (s.after (s.pool.close c))

/-- The connection that `Get` returns with the event, if it does. -/
def returned (s : System) : Event → Option Nat
  | .get addr clock => (s.pool.get addr clock).2
  | .dialTimeout i ok =>
    match s.calls[i]? with
    | some (.dialling _) => if ok then some s.dialled.length else none
    | _ => none
  | _ => none

/-- The connections that callers hold. -/
def heldConns (s : System) : List Nat := s.calls.flatMap Call.conns

/-- The caller of call `i` holds the connection. -/
def Holds (s : System) (i : Nat) (conn : Nat) : Prop :=
  ∃ addr, s.calls[i]? = some (.holding addr conn)

end System

/-! ## Who owns a connection -/

namespace System

/-- What `DoRequest` puts back is one step of its call. -/
theorem doRequest_put {s : System} {i : Nat} {addr : String} {conn : Nat}
    (holding : s.calls[i]? = some (.holding addr conn)) (wrote read : Bool)
    (created lastUsed : Int) :
    ∃ healthy, doRequest addr conn wrote read = [(addr, conn, healthy)] ∧
      s.next (.put i healthy created lastUsed) =
        some { s.after (s.pool.put addr (some conn) healthy created lastUsed) with
          calls := s.calls.set i .ended } := by
  obtain ⟨healthy, once⟩ := doRequest_once addr conn wrote read
  exact ⟨healthy, once, by simp only [next, holding]⟩

/-- Each connection that was dialled is idle, held or closed, and only one of these and
once. Idle and held ones are where their address says, and no list is too long. -/
structure Owned (maxIdle : Int) (s : System) : Prop where
  limit : s.pool.maxIdle = maxIdle
  conserved : s.pool.idleConns + s.heldConns + s.closed = Multiset.range s.dialled.length
  stored : ∀ addr, ∀ c ∈ s.pool.idle addr, s.dialled[c]? = some addr
  held : ∀ addr c, .holding addr c ∈ s.calls → s.dialled[c]? = some addr
  room : ∀ addr, ((s.pool.idle addr).length : Int) ≤ maxIdle

theorem owned_init {maxIdle : Int} (room : 0 ≤ maxIdle) (maxLifetime : Int) :
    Owned maxIdle (init maxIdle maxLifetime) where
  limit := rfl
  conserved := rfl
  stored := nofun
  held := nofun
  room _ := room

variable {maxIdle : Int} {s : System}

/-- The connections that callers hold when one call goes on. -/
theorem heldConns_set {i : Nat} {call : Call} (h : s.calls[i]? = some call) (call' : Call) :
    (call.conns : Multiset Nat) + ((s.calls.set i call').flatMap Call.conns : List Nat) =
      (call'.conns : Multiset Nat) + s.heldConns :=
  Multiset.coe_eq_coe.mpr (Store.flatMap_set_perm h call' Call.conns)

/-- What holds of the connections that are held, when one call goes on. -/
theorem holding_set {calls : List Call} {i : Nat} {call : Call} {P : String → Nat → Prop}
    (before : ∀ addr c, .holding addr c ∈ calls → P addr c)
    (own : ∀ addr c, call = .holding addr c → P addr c) (addr : String) (c : Nat)
    (mem : .holding addr c ∈ calls.set i call) : P addr c := by
  obtain mem | same := List.mem_or_eq_of_mem_set mem
  · exact before addr c mem
  · exact own addr c same.symm

theorem Owned.sheds (h : Owned maxIdle s) {out : TCPConnPool.Outcome} (sheds : s.pool.Sheds out) :
    Owned maxIdle (s.after out) where
  limit := sheds.maxIdle.trans h.limit
  conserved := by
    simp only [after, heldConns, ← Multiset.coe_add, ← h.conserved, ← sheds.balance]
    abel
  stored addr c mem := h.stored addr c ((sheds.sublist addr).subset mem)
  held := h.held
  room addr := by
    have shorter := (sheds.sublist addr).length_le
    have before := h.room addr
    simp only [after]
    omega

/-- What `Get` takes goes to its caller. -/
theorem get_cases {addr : String} {clock : Nat → Int} {s' : System}
    (step : s.next (.get addr clock) = some s') :
    ∃ call : Call, call.conns = (s.pool.get addr clock).2.toList ∧
      (∀ a c, call = .holding a c → a = addr ∧ (s.pool.get addr clock).2 = some c) ∧
      s' = { s.after (s.pool.get addr clock).1 with calls := s.calls ++ [call] } := by
  simp only [next] at step
  split at step
  · rename_i conn taken
    refine ⟨.holding addr conn, by rw [taken]; rfl, ?_, (Option.some.inj step).symm⟩
    rintro a c ⟨⟩
    exact ⟨rfl, taken⟩
  · rename_i taken
    exact ⟨.dialling addr, by rw [taken]; rfl, nofun, (Option.some.inj step).symm⟩

theorem Owned.get (h : Owned maxIdle s) {addr : String} {clock : Nat → Int} {s' : System}
    (step : s.next (.get addr clock) = some s') : Owned maxIdle s' := by
  have balance := s.pool.get_balance addr clock
  obtain ⟨call, conns, holding, rfl⟩ := get_cases step
  refine ⟨h.limit, ?_, ?_, ?_, ?_⟩
  · simp only [after, heldConns, List.flatMap_append, List.flatMap_singleton, conns,
      ← Multiset.coe_add, ← h.conserved, ← balance]
    abel
  · exact fun a c mem => h.stored a c ((s.pool.get_sublist addr clock a).subset mem)
  · intro a c mem
    obtain mem | mem := List.mem_append.mp mem
    · exact h.held a c mem
    · obtain ⟨rfl, taken⟩ := holding a c (List.mem_singleton.mp mem).symm
      exact h.stored a c (s.pool.get_taken a clock taken)
  · intro a
    have shorter := (s.pool.get_sublist addr clock a).length_le
    have before := h.room a
    simp only [after]
    exact le_trans (by exact_mod_cast shorter) before

/-- A dial gives its caller a connection that is new, or ends the call. -/
theorem dial_cases {i : Nat} {ok : Bool} {s' : System}
    (step : s.next (.dialTimeout i ok) = some s') :
    ∃ addr, s.calls[i]? = some (.dialling addr) ∧
      (ok = true ∧ s' = { s with
          calls := s.calls.set i (.holding addr s.dialled.length)
          dialled := s.dialled ++ [addr] } ∨
        ok = false ∧ s' = { s with calls := s.calls.set i .ended }) := by
  simp only [next] at step
  split at step
  · rename_i addr dialling
    refine ⟨addr, dialling, ?_⟩
    cases ok with
    | true => exact .inl ⟨rfl, (Option.some.inj step).symm⟩
    | false => exact .inr ⟨rfl, (Option.some.inj step).symm⟩
  · cases step

theorem Owned.dialTimeout (h : Owned maxIdle s) {i : Nat} {ok : Bool} {s' : System}
    (step : s.next (.dialTimeout i ok) = some s') : Owned maxIdle s' := by
  obtain ⟨addr, dialling, ⟨-, rfl⟩ | ⟨-, rfl⟩⟩ := dial_cases step
  · have held := heldConns_set dialling (.holding addr s.dialled.length)
    have kept : ∀ {c : Nat} {a : String}, s.dialled[c]? = some a →
        (s.dialled ++ [addr])[c]? = some a := fun found =>
      (List.getElem?_append_left (Store.lt_of_some found)).trans found
    refine ⟨h.limit, ?_, fun a c mem => kept (h.stored a c mem), ?_, h.room⟩
    · simp only [Call.conns, Multiset.coe_nil, zero_add, Multiset.coe_singleton] at held
      simp only [heldConns, held, List.length_append, List.length_singleton, Multiset.range_succ,
        ← h.conserved, ← Multiset.singleton_add]
      abel
    · apply holding_set fun a c mem => kept (h.held a c mem)
      rintro a c ⟨⟩
      exact List.getElem?_concat_length
  · have held := heldConns_set dialling .ended
    refine ⟨h.limit, ?_, h.stored, holding_set h.held nofun, h.room⟩
    simp only [Call.conns, Multiset.coe_nil, zero_add] at held
    simp only [heldConns, held, ← h.conserved]

theorem Owned.put (h : Owned maxIdle s) {i : Nat} {healthy : Bool} {created lastUsed : Int}
    {s' : System} (step : s.next (.put i healthy created lastUsed) = some s') :
    Owned maxIdle s' := by
  simp only [next] at step
  split at step
  · rename_i addr conn holding
    obtain rfl := Option.some.inj step
    have dialled := h.held addr conn (List.mem_of_getElem? holding)
    have held := heldConns_set holding .ended
    simp only [Call.conns, Multiset.coe_nil, zero_add, Multiset.coe_singleton] at held
    have conserved := h.conserved
    rw [← held] at conserved
    have others : ∀ a c, .holding a c ∈ s.calls.set i .ended → s.dialled[c]? = some a :=
      holding_set h.held nofun
    obtain closed | ⟨lst, found, room, added⟩ :=
      s.pool.put_cases addr conn healthy created lastUsed
    · refine ⟨?_, ?_, ?_, others, ?_⟩
      · simpa only [after, closed] using h.limit
      · simp only [after, closed, heldConns, ← conserved, ← Multiset.coe_add,
          Multiset.coe_singleton]
        abel
      · simpa only [after, closed] using h.stored
      · simpa only [after, closed] using h.room
    · have list : s.pool.idle addr = lst.map PooledConn.conn := by
        rw [TCPConnPool.idle, Dict.listAt_of_lookup found]
      have balance := s.pool.idleConns_insert addr (⟨conn, created, lastUsed⟩ :: lst)
      rw [List.map_cons, ← list, ← Multiset.cons_coe, ← Multiset.singleton_add, ← add_assoc]
        at balance
      refine ⟨?_, ?_, fun a c mem => ?_, others, fun a => ?_⟩
      · simpa only [after, added] using h.limit
      · simp only [after, added, heldConns, ← conserved, List.append_nil,
          add_right_cancel balance]
        abel
      · simp only [after, added, TCPConnPool.idle_insert] at mem
        split at mem
        · rename_i same
          subst same
          obtain rfl | mem := List.mem_cons.mp mem
          · exact dialled
          · exact h.stored a c (list ▸ mem)
        · exact h.stored a c mem
      · simp only [after, added, TCPConnPool.idle_insert]
        split
        · have limit := h.limit
          simp only [List.map_cons, List.length_cons, List.length_map]
          omega
        · exact h.room a
  · cases step

theorem owned_step {s s' : System} {e : Event} (h : Owned maxIdle s) (step : s.next e = some s') :
    Owned maxIdle s' := by
  cases e with
  | get addr clock => exact h.get step
  | dialTimeout i ok => exact h.dialTimeout step
  | put i healthy created lastUsed => exact h.put step
  | cleanup c now =>
    obtain rfl := Option.some.inj step
    exact h.sheds (s.pool.cleanup_sheds c now)
  | close c =>
    obtain rfl := Option.some.inj step
    exact h.sheds (s.pool.close_sheds c)

theorem Owned.run {s s' : System} (run : Run (Moves next) (fun _ _ => True) s s')
    (h : Owned maxIdle s) : Owned maxIdle s' :=
  run.invariant (fun _ _ _ before _ step => owned_step before step) h

theorem mem_heldConns {c : Nat} :
    c ∈ s.heldConns ↔ ∃ i, s.Holds i c := by
  simp only [heldConns, List.mem_flatMap]
  constructor
  · rintro ⟨call, mem, own⟩
    obtain ⟨i, at_⟩ := List.mem_iff_getElem?.mp mem
    cases call with
    | holding addr conn =>
      obtain rfl := List.mem_singleton.mp own
      exact ⟨i, addr, at_⟩
    | dialling addr => cases own
    | ended => cases own
  · rintro ⟨i, addr, at_⟩
    exact ⟨_, List.mem_of_getElem? at_, List.mem_singleton_self c⟩

/-- The places are apart. -/
theorem Owned.apart (h : Owned maxIdle s) :
    s.pool.idleConns.Nodup ∧ (∀ c ∈ s.pool.idleConns, c ∉ s.heldConns ∧ c ∉ s.closed) ∧
      ∀ c ∈ s.heldConns, c ∉ s.closed := by
  have once : (s.pool.idleConns + s.heldConns + s.closed).Nodup := by
    rw [h.conserved]
    exact Multiset.nodup_range _
  obtain ⟨open_, -, closed⟩ := Multiset.nodup_add.mp once
  obtain ⟨idle, -, held⟩ := Multiset.nodup_add.mp open_
  rw [Multiset.disjoint_left] at closed held
  refine ⟨idle, fun c mem => ⟨fun own => ?_, fun gone => ?_⟩, fun c mem gone => ?_⟩
  · exact held mem (Multiset.mem_coe.mpr own)
  · exact closed (Multiset.mem_add.mpr (.inl mem)) (Multiset.mem_coe.mpr gone)
  · have own := Multiset.mem_coe.mpr mem
    exact closed (Multiset.mem_add.mpr (.inr own)) (Multiset.mem_coe.mpr gone)

/-- A connection that is not dialled yet is nowhere. -/
theorem Owned.not_dialled (h : Owned maxIdle s) : s.dialled.length ∉ s.heldConns ∧
    s.dialled.length ∉ s.closed := by
  have nowhere : s.dialled.length ∉ s.pool.idleConns + s.heldConns + s.closed := by
    rw [h.conserved]
    exact Multiset.notMem_range_self
  simp only [Multiset.mem_add, Multiset.mem_coe, not_or] at nowhere
  exact ⟨nowhere.1.2, nowhere.2⟩

/-- A connection that `Get` returns was idle or new, and goes to the caller. -/
theorem Owned.returned (h : Owned maxIdle s) {e : Event} {s' : System}
    (step : s.next e = some s') {c : Nat} (returns : s.returned e = some c) :
    c ∉ s.heldConns ∧ c ∉ s.closed ∧ c ∈ s'.heldConns := by
  cases e with
  | get addr clock =>
    obtain ⟨call, conns, -, rfl⟩ := get_cases step
    have idle : c ∈ s.pool.idleConns :=
      TCPConnPool.mem_idleConns.mpr ⟨addr, s.pool.get_taken addr clock returns⟩
    obtain ⟨-, apart, -⟩ := h.apart
    refine ⟨(apart c idle).1, (apart c idle).2, ?_⟩
    have taken : c ∈ call.conns := conns ▸ Option.mem_toList.mpr returns
    simp only [heldConns, List.flatMap_append, List.flatMap_singleton]
    exact List.mem_append_right _ taken
  | dialTimeout i ok =>
    obtain ⟨addr, dialling, ⟨rfl, rfl⟩ | ⟨rfl, -⟩⟩ := dial_cases step
    · simp only [System.returned, dialling, if_true] at returns
      obtain rfl := Option.some.inj returns
      refine ⟨h.not_dialled.1, h.not_dialled.2, mem_heldConns.mpr ⟨i, addr, ?_⟩⟩
      simp only [Store.getElem?_set dialling, if_true]
    · simp only [System.returned, dialling] at returns
      cases returns
  | put | cleanup | close => cases returns

/-- **Who owns a connection.** In every state that any interleaving of `Get`, `Put`,
`cleanup` and `Close` reaches, the idle connections of all addresses are distinct, none of
them is closed or held, each is under the address that it was dialled for, and no address
has more than `maxIdle`. `Get` returns no connection that the pool has closed or that a
caller holds. -/
theorem ownership {maxIdle maxLifetime : Int} (room : 0 ≤ maxIdle) {s : System}
    (run : Run (Moves next) (fun _ _ => True) (init maxIdle maxLifetime) s) :
    s.pool.idleConns.Nodup ∧
      (∀ c ∈ s.pool.idleConns, c ∉ s.closed ∧ ∀ i, ¬ s.Holds i c) ∧
      (∀ addr, ∀ c ∈ s.pool.idle addr, s.dialled[c]? = some addr) ∧
      (∀ addr, ((s.pool.idle addr).length : Int) ≤ maxIdle) ∧
      ∀ e s', s.next e = some s' → ∀ c ∈ s.returned e,
        c ∉ s.closed ∧ c ∉ s'.closed ∧ ∀ i, ¬ s.Holds i c := by
  have owned := Owned.run run (owned_init room maxLifetime)
  obtain ⟨distinct, apart, -⟩ := owned.apart
  refine ⟨distinct, fun c mem => ⟨(apart c mem).2, fun i holds => ?_⟩, owned.stored, owned.room, ?_⟩
  · exact (apart c mem).1 (mem_heldConns.mpr ⟨i, holds⟩)
  · intro e s' step c returns
    obtain ⟨free, live, own⟩ := owned.returned step returns
    obtain ⟨-, -, live'⟩ := (owned_step owned step).apart
    exact ⟨live, live' c own, fun i holds => free (mem_heldConns.mpr ⟨i, holds⟩)⟩

/-- Two callers dial and put their connections back, of which one is kept. A third gets
that one. -/
theorem ownership_third_caller :
    ∃ s, Run (Moves next) (fun _ _ => True) (init 1 100) s ∧ s.pool.idle "a:80" = [0] ∧
      s.closed = [1] ∧ s.returned (.get "a:80" fun _ => 50) = some 0 ∧ ∀ i, ¬ s.Holds i 0 := by
  have start : ∃ s, Run (Moves next) (fun _ _ => True) (init 1 100) s ∧ s.pool.idle "a:80" = [0] ∧
      s.closed = [1] ∧ s.returned (.get "a:80" fun _ => 50) = some 0 ∧
      (s.next (.get "a:80" fun _ => 50)).isSome := by
    apply Run.exists_of_checked [.get "a:80" fun _ => 0, .get "a:80" fun _ => 1,
      .dialTimeout 1 true, .dialTimeout 0 true, .put 1 true 10 10, .put 0 true 11 11]
    decide +kernel
  obtain ⟨s, run, idle, closed, returns, goes⟩ := start
  obtain ⟨s', step⟩ := Option.isSome_iff_exists.mp goes
  obtain ⟨-, -, -, -, free⟩ := ownership (by decide) run
  exact ⟨s, run, idle, closed, returns, (free _ s' step 0 returns).2.2⟩

end System

end SkyAccel.Backsourcer
