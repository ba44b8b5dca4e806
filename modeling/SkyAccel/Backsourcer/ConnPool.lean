import SkyAccel.Lib.Dict
import SkyAccel.Lib.Duration
import SkyAccel.Lib.Shuffle

/-!
# The pool of connections to origins

`backsourcer/tcp_pool.go`: `Get` takes an idle connection to the address or dials one,
`Put` gives it back, `cleanup` and `Close` close idle ones. Each of them holds the lock
while it works on the lists, and `Get` dials after it has let go of it. Connections are
numbered as they are dialled, times are nanoseconds, and maps are listed in the order of a
draw.

What an operation closes or hands out is what it takes from the lists (`get_balance`,
`cleanup_sheds`, `close_sheds`).
-/

namespace SkyAccel.Backsourcer

open scoped List

/-- An idle connection. -/
structure PooledConn where
  conn : Nat
  created : Int
  lastUsed : Int
  deriving DecidableEq

structure TCPConnPool where
  pools : Dict String (List PooledConn)
  maxIdle : Int
  maxLifetime : Int

namespace TCPConnPool

def newTCPConnPool (maxIdle maxLifetime : Int) : TCPConnPool := ⟨∅, maxIdle, maxLifetime⟩

variable (p : TCPConnPool)

/-- What an operation leaves, with the connections that it has closed. -/
abbrev Outcome := TCPConnPool × List Nat

/-- The test of `cleanup`. -/
def expired (now : Int) (pc : PooledConn) : Bool :=
  p.maxLifetime < Duration.sub now pc.lastUsed ||
    Duration.mul p.maxLifetime 2 < Duration.sub now pc.created

/-- The inner loop of `cleanup`, from an element of the list on: the connections that are
closed, and the elements that stay. -/
def sweep (now : Int) : List PooledConn → List Nat × List PooledConn
  | [] => ([], [])
  | pc :: next =>
    if p.expired now pc then (pc.conn :: (sweep now next).1, (sweep now next).2)
    else ((sweep now next).1, pc :: (sweep now next).2)

/-- One turn of the outer loop of `cleanup`. -/
def cleanList (now : Int) (st : Dict String (List PooledConn) × List Nat)
    (entry : (_ : String) × List PooledConn) : Dict String (List PooledConn) × List Nat :=
  let (closed, lst) := p.sweep now entry.2
  (if lst.length = 0 then st.1.erase entry.1 else st.1.insert entry.1 lst, st.2 ++ closed)

def cleanup (c : Choices) (now : Int) : Outcome :=
  let (pools, closed) := (shuffle c 0 p.pools.entries).foldl (p.cleanList now) (p.pools, [])
  ({ p with pools := pools }, closed)

/-- The loop of `Get`, with a reading of the clock in each turn: the connections that are
closed, the one that is taken, and the elements that stay. -/
def take (clock : Nat → Int) : List PooledConn → List Nat × Option Nat × List PooledConn
  | [] => ([], none, [])
  | pc :: next =>
    if p.maxLifetime < Duration.sub (clock 0) pc.lastUsed then
      let (closed, taken, rest) := take (fun n => clock (n + 1)) next
      (pc.conn :: closed, taken, rest)
    else ([], some pc.conn, next)

/-- `Get` up to the dial, which follows if there is no connection to take. -/
def get (addr : String) (clock : Nat → Int) : Outcome × Option Nat :=
  let (closed, taken, rest) := p.take clock (p.pools.listAt addr)
  (({ p with pools := p.pools.insert addr rest }, closed), taken)

def put (addr : String) (conn : Option Nat) (healthy : Bool) (created lastUsed : Int) : Outcome :=
  match conn with
  | none => (p, [])
  | some conn =>
    match p.pools.lookup addr with
    | none => (p, [conn])
    | some lst =>
      if healthy = false ∨ p.maxIdle ≤ lst.length then (p, [conn])
      else ({ p with pools := p.pools.insert addr (⟨conn, created, lastUsed⟩ :: lst) }, [])

def close (c : Choices) : Outcome :=
  ({ p with pools := ∅ },
    (shuffle c 0 p.pools.entries).flatMap fun entry => entry.2.map PooledConn.conn)

/-- The idle connections of an address. -/
def idle (addr : String) : List Nat := (p.pools.listAt addr).map PooledConn.conn

/-- The idle connections of all addresses. -/
def idleConns : Multiset Nat := Multiset.map PooledConn.conn p.pools.contents

end TCPConnPool

/-! ## What an operation does to the lists -/

namespace TCPConnPool
variable {p : TCPConnPool}

theorem mem_idleConns {c : Nat} : c ∈ p.idleConns ↔ ∃ addr, c ∈ p.idle addr := by
  simp only [idleConns, idle, Multiset.mem_map, Multiset.mem_coe, List.mem_map, Dict.mem_contents]
  constructor
  · rintro ⟨pc, ⟨addr, mem⟩, rfl⟩
    exact ⟨addr, pc, mem, rfl⟩
  · rintro ⟨addr, pc, mem, rfl⟩
    exact ⟨pc, ⟨addr, mem⟩, rfl⟩

/-- A loop leaves a part of the list it goes through. -/
theorem sweep_sublist (now : Int) (l : List PooledConn) : (p.sweep now l).2 <+ l := by
  induction l with
  | nil => exact .slnil
  | cons pc next ih =>
    simp only [sweep]
    split
    · exact ih.cons _
    · exact ih.cons_cons _

/-- What it does not leave it closes. -/
theorem sweep_balance (now : Int) (l : List PooledConn) :
    ((p.sweep now l).1 : Multiset Nat) + (p.sweep now l).2.map PooledConn.conn =
      l.map PooledConn.conn := by
  induction l with
  | nil => rfl
  | cons pc next ih =>
    simp only [sweep]
    split
    · simp only [List.map_cons, ← Multiset.cons_coe, ← ih, Multiset.cons_add]
    · simp only [List.map_cons, ← Multiset.cons_coe, ← ih, Multiset.add_cons]

theorem take_sublist (clock : Nat → Int) (l : List PooledConn) : (p.take clock l).2.2 <+ l := by
  induction l generalizing clock with
  | nil => exact .slnil
  | cons pc next ih =>
    simp only [take]
    split
    · exact (ih _).cons _
    · exact List.sublist_cons_self pc next

theorem take_balance (clock : Nat → Int) (l : List PooledConn) :
    ((p.take clock l).1 : Multiset Nat) + (p.take clock l).2.1.toList +
      (p.take clock l).2.2.map PooledConn.conn = l.map PooledConn.conn := by
  induction l generalizing clock with
  | nil => rfl
  | cons pc next ih =>
    simp only [take]
    split
    · simp only [List.map_cons, ← Multiset.cons_coe, ← ih fun n => clock (n + 1),
        Multiset.cons_add]
    · simp

/-- The idle connections when the list of an address is replaced. -/
theorem idleConns_insert (p : TCPConnPool) (addr : String) (l : List PooledConn) :
    idleConns { p with pools := p.pools.insert addr l } + p.idle addr =
      p.idleConns + l.map PooledConn.conn := by
  have balance := congrArg (Multiset.map PooledConn.conn) (Dict.contents_insert p.pools addr l)
  rwa [Multiset.map_add, Multiset.map_add] at balance

theorem idleConns_erase (p : TCPConnPool) (addr : String) :
    idleConns { p with pools := p.pools.erase addr } + p.idle addr = p.idleConns := by
  have balance := congrArg (Multiset.map PooledConn.conn) (Dict.contents_erase p.pools addr)
  rwa [Multiset.map_add] at balance

/-- An operation that only takes connections out of the lists, and closes them. -/
structure Sheds (p : TCPConnPool) (out : Outcome) : Prop where
  maxIdle : out.1.maxIdle = p.maxIdle
  balance : out.1.idleConns + out.2 = p.idleConns
  sublist : ∀ addr, out.1.idle addr <+ p.idle addr

theorem Sheds.refl (p : TCPConnPool) : Sheds p (p, []) where
  maxIdle := rfl
  balance := add_zero _
  sublist _ := .refl _

theorem idle_insert (p : TCPConnPool) (a addr : String) (l : List PooledConn) :
    idle { p with pools := p.pools.insert addr l } a =
      if a = addr then l.map PooledConn.conn else p.idle a := by
  simp only [idle, Dict.listAt_insert]
  split
  · rfl
  · rfl

theorem idle_erase (p : TCPConnPool) (a addr : String) :
    idle { p with pools := p.pools.erase addr } a = if a = addr then [] else p.idle a := by
  simp only [idle, Dict.listAt_erase]
  split
  · rfl
  · rfl

/-- One turn of `cleanup`, at an entry that is still as it was. -/
theorem Sheds.cleanList {now : Int} {st : Dict String (List PooledConn) × List Nat}
    {entry : (_ : String) × List PooledConn} (before : Sheds p ({ p with pools := st.1 }, st.2))
    (there : st.1.lookup entry.1 = some entry.2) :
    Sheds p ({ p with pools := (p.cleanList now st entry).1 }, (p.cleanList now st entry).2) := by
  have list : idle { p with pools := st.1 } entry.1 = entry.2.map PooledConn.conn := by
    rw [idle, Dict.listAt_of_lookup there]
  have swept := p.sweep_balance now entry.2
  have part := (p.sweep_sublist now entry.2).map PooledConn.conn
  refine ⟨rfl, ?_, fun addr => ?_⟩
  · rw [← before.balance]
    simp only [TCPConnPool.cleanList]
    split
    · rename_i empty
      have balance := idleConns_erase { p with pools := st.1 } entry.1
      rw [List.length_eq_zero_iff.mp empty] at swept
      rw [list, ← swept] at balance
      rw [← balance, ← Multiset.coe_add]
      simp only [List.map_nil, Multiset.coe_nil]
      abel
    · have balance := idleConns_insert { p with pools := st.1 } entry.1 (p.sweep now entry.2).2
      rw [list, ← swept, ← add_assoc] at balance
      rw [← Multiset.coe_add, ← add_right_cancel balance]
      abel
  · apply List.Sublist.trans _ (before.sublist addr)
    simp only [TCPConnPool.cleanList]
    split
    · rw [idle_erase { p with pools := st.1 }]
      split
      · exact List.nil_sublist _
      · exact .refl _
    · rw [idle_insert { p with pools := st.1 }]
      split
      · rename_i same
        rw [same, list]
        exact part
      · exact .refl _

theorem lookup_cleanList {now : Int} {st : Dict String (List PooledConn) × List Nat}
    {entry : (_ : String) × List PooledConn} {addr : String} (other : addr ≠ entry.1) :
    (p.cleanList now st entry).1.lookup addr = st.1.lookup addr := by
  simp only [cleanList]
  split
  · exact AList.lookup_erase_ne other
  · exact AList.lookup_insert_ne other

theorem Sheds.foldl_cleanList {now : Int} {order : List ((_ : String) × List PooledConn)}
    (distinct : order.NodupKeys) {st : Dict String (List PooledConn) × List Nat}
    (before : Sheds p ({ p with pools := st.1 }, st.2))
    (there : ∀ entry ∈ order, st.1.lookup entry.1 = some entry.2) :
    Sheds p ({ p with pools := (order.foldl (p.cleanList now) st).1 },
      (order.foldl (p.cleanList now) st).2) := by
  induction order generalizing st with
  | nil => exact before
  | cons entry order ih =>
    obtain ⟨fresh, rest⟩ := List.nodupKeys_cons.mp distinct
    apply ih rest (before.cleanList (there entry List.mem_cons_self))
    -- the turn leaves the entries that are still to come alone
    intro later mem
    have other : later.1 ≠ entry.1 := fun same =>
      fresh (same ▸ List.mem_keys_of_mem mem)
    rw [lookup_cleanList other]
    exact there later (List.mem_cons_of_mem _ mem)

theorem cleanup_sheds (p : TCPConnPool) (c : Choices) (now : Int) : Sheds p (p.cleanup c now) := by
  have order := shuffle_perm c 0 p.pools.entries
  have distinct : (shuffle c 0 p.pools.entries).NodupKeys :=
    (List.perm_nodupKeys order).mpr p.pools.nodupKeys
  apply Sheds.foldl_cleanList distinct (.refl p)
  exact fun entry mem => Dict.lookup_eq_some.mpr (order.mem_iff.mp mem)

theorem close_sheds (p : TCPConnPool) (c : Choices) : Sheds p (p.close c) where
  maxIdle := rfl
  balance := by
    have order := (shuffle_perm c 0 p.pools.entries).flatMap_right
      fun entry => entry.2.map PooledConn.conn
    have all : p.idleConns =
        (p.pools.entries.flatMap fun entry => entry.2.map PooledConn.conn : List Nat) := by
      rw [idleConns, Dict.contents, Multiset.map_coe, List.map_flatMap]
    rw [all, ← Multiset.coe_eq_coe.mpr order]
    exact zero_add _
  sublist _ := List.nil_sublist _

section
variable (p : TCPConnPool) (addr : String) (clock : Nat → Int)

theorem get_balance :
    (p.get addr clock).1.1.idleConns + (p.get addr clock).1.2 + (p.get addr clock).2.toList =
      p.idleConns := by
  have balance := idleConns_insert p addr (p.take clock (p.pools.listAt addr)).2.2
  have taken := p.take_balance clock (p.pools.listAt addr)
  rw [show p.idle addr = (p.pools.listAt addr).map PooledConn.conn from rfl, ← taken,
    ← add_assoc, ← add_assoc] at balance
  exact add_right_cancel balance

theorem get_sublist (a : String) : (p.get addr clock).1.1.idle a <+ p.idle a := by
  have kept := p.take_sublist clock (p.pools.listAt addr)
  simp only [get, idle_insert]
  split
  · rename_i same
    rw [same]
    exact kept.map _
  · exact .refl _

theorem get_taken {c : Nat} (h : (p.get addr clock).2 = some c) : c ∈ p.idle addr := by
  have taken : c ∈ (p.take clock (p.pools.listAt addr)).2.1.toList := Option.mem_toList.mpr h
  have balance := p.take_balance clock (p.pools.listAt addr)
  rw [← Multiset.mem_coe, idle, ← balance]
  simp [taken]

variable (conn : Nat) (healthy : Bool) (created lastUsed : Int)

/-- `Put` closes the connection, or adds it to a list that has room for it. -/
theorem put_cases :
    p.put addr (some conn) healthy created lastUsed = (p, [conn]) ∨
      ∃ lst, p.pools.lookup addr = some lst ∧ (lst.length : Int) < p.maxIdle ∧
        p.put addr (some conn) healthy created lastUsed =
          ({ p with pools := p.pools.insert addr (⟨conn, created, lastUsed⟩ :: lst) }, []) := by
  simp only [put]
  split
  · exact .inl rfl
  · rename_i lst found
    split
    · exact .inl rfl
    · rename_i room
      push Not at room
      exact .inr ⟨lst, found, room.2, rfl⟩

end

end TCPConnPool

end SkyAccel.Backsourcer
