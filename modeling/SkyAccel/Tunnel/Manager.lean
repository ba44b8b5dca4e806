import SkyAccel.Lib.Run
import SkyAccel.Lib.Dict
import SkyAccel.Lib.Net

/-!
# Shared tunnels

`tunnel-manager.go`: calls of `SendPacket` to one address share a connection. A call that
fails on its connection closes the tunnel, by address. Connections are numbered as they are
dialled, and each operation on one may fail or succeed.

Between the failure and the closing another call may have closed the tunnel and a third
dialled a new one, which is then closed though nothing has failed on it
(`healthy_tunnel_closed`). If every call finds its own connection or none when it closes
the tunnel, only connections that failed are closed (`closed_for_failure`).
-/

namespace SkyAccel.Tunnel

def QUIC_PORT : String := "4433"

def tunnelAddr (remoteIP : UInt32) : String := Net.joinHostPort (Net.ipString remoteIP) QUIC_PORT

/-- Where a call of `SendPacket` stands: before the first lookup, before the lock that it
dials under, before it opens a stream, before it writes, before `CloseTunnel`, returned. -/
inductive Call
  | looking (addr : String)
  | locking (addr : String)
  | opening (addr : String) (conn : Nat)
  | writing (addr : String) (conn : Nat)
  | closing (addr : String) (conn : Nat)
  | returned
  deriving DecidableEq

/-- `failed` and `closed` record on which connections an operation has failed, and which
`CloseTunnel` has closed. -/
structure TunnelManager where
  tunnels : Dict String Nat
  calls : List Call
  dialled : Nat
  failed : List Nat
  closed : List Nat

/-- `ok` says how the operation of a call ends. -/
inductive TunnelEvent
  | sendPacket (remoteIP : Option UInt32)
  | look (i : Nat)
  | getOrCreate (i : Nat) (ok : Bool)
  | openUniStream (i : Nat) (ok : Bool)
  | write (i : Nat) (ok : Bool)
  | closeTunnel (i : Nat)

namespace TunnelManager

def init : TunnelManager := ⟨∅, [], 0, [], []⟩

/-- The call goes on. -/
def goOn (m : TunnelManager) (i : Nat) (c : Call) : TunnelManager :=
  { m with calls := m.calls.set i c }

/-- The call goes on after an operation on its connection. -/
def outcome (m : TunnelManager) (i : Nat) (addr : String) (conn : Nat) (ok : Bool) (c : Call) :
    TunnelManager :=
  if ok then m.goOn i c
  else { m.goOn i (.closing addr conn) with failed := m.failed ++ [conn] }

def next (m : TunnelManager) : TunnelEvent → Option TunnelManager
  | .sendPacket none => some { m with calls := m.calls ++ [.returned] }
  | .sendPacket (some remoteIP) =>
    some { m with calls := m.calls ++ [.looking (tunnelAddr remoteIP)] }
  | .look i =>
    match m.calls[i]? with
    | some (.looking addr) =>
      match m.tunnels.lookup addr with
      | some conn => some (m.goOn i (.opening addr conn))
      | none => some (m.goOn i (.locking addr))
    | _ => none
  | .getOrCreate i ok =>
    match m.calls[i]? with
    | some (.locking addr) =>
      match m.tunnels.lookup addr with
      | some conn => some (m.goOn i (.opening addr conn))
      | none =>
        if ok then
          some { m.goOn i (.opening addr m.dialled) with
            tunnels := m.tunnels.insert addr m.dialled
            dialled := m.dialled + 1 }
        else some (m.goOn i .returned)
    | _ => none
  | .openUniStream i ok =>
    match m.calls[i]? with
    | some (.opening addr conn) => some (m.outcome i addr conn ok (.writing addr conn))
    | _ => none
  | .write i ok =>
    match m.calls[i]? with
    | some (.writing addr conn) => some (m.outcome i addr conn ok .returned)
    | _ => none
  | .closeTunnel i =>
    match m.calls[i]? with
    | some (.closing addr _) =>
      match m.tunnels.lookup addr with
      | some conn => some { m.goOn i .returned with
          tunnels := m.tunnels.erase addr
          closed := m.closed ++ [conn] }
      | none => some (m.goOn i .returned)
    | _ => none

/-! ## What a step can do -/

inductive Step (m : TunnelManager) : TunnelEvent → TunnelManager → Prop
  | call {e : TunnelEvent} (c : Call) : (∀ addr conn, c ≠ .closing addr conn) →
      Step m e { m with calls := m.calls ++ [c] }
  | goOn {e : TunnelEvent} (i : Nat) (c : Call) : (∀ addr conn, c ≠ .closing addr conn) →
      Step m e (m.goOn i c)
  | dial {i : Nat} {addr : String} : Step m (.getOrCreate i true)
      { m.goOn i (.opening addr m.dialled) with
        tunnels := m.tunnels.insert addr m.dialled
        dialled := m.dialled + 1 }
  | fail {e : TunnelEvent} (i : Nat) (addr : String) (conn : Nat) :
      Step m e { m.goOn i (.closing addr conn) with failed := m.failed ++ [conn] }
  | close {i : Nat} {addr : String} {own conn : Nat} : m.calls[i]? = some (.closing addr own) →
      m.tunnels.lookup addr = some conn → Step m (.closeTunnel i)
        { m.goOn i .returned with
          tunnels := m.tunnels.erase addr
          closed := m.closed ++ [conn] }

theorem step_outcome {m : TunnelManager} {e : TunnelEvent} {i : Nat} {addr : String} {conn : Nat}
    {ok : Bool} {c : Call} (other : ∀ addr conn, c ≠ .closing addr conn) :
    Step m e (m.outcome i addr conn ok c) := by
  unfold outcome
  split
  · exact .goOn i c other
  · exact .fail i addr conn

theorem step_of_next {m m' : TunnelManager} {e : TunnelEvent} (h : m.next e = some m') :
    Step m e m' := by
  unfold next at h
  split at h
  · obtain rfl := Option.some.inj h
    exact .call _ fun _ _ => Call.noConfusion
  · obtain rfl := Option.some.inj h
    exact .call _ fun _ _ => Call.noConfusion
  · split at h
    · split at h
      · obtain rfl := Option.some.inj h
        exact .goOn _ _ fun _ _ => Call.noConfusion
      · obtain rfl := Option.some.inj h
        exact .goOn _ _ fun _ _ => Call.noConfusion
    · cases h
  · split at h
    · split at h
      · obtain rfl := Option.some.inj h
        exact .goOn _ _ fun _ _ => Call.noConfusion
      · split at h
        · rename_i dial
          obtain rfl := Option.some.inj h
          subst dial
          exact .dial
        · obtain rfl := Option.some.inj h
          exact .goOn _ _ fun _ _ => Call.noConfusion
    · cases h
  · split at h
    · obtain rfl := Option.some.inj h
      exact step_outcome fun _ _ => Call.noConfusion
    · cases h
  · split at h
    · obtain rfl := Option.some.inj h
      exact step_outcome fun _ _ => Call.noConfusion
    · cases h
  · split at h
    · rename_i own closing
      split at h
      · rename_i conn found
        obtain rfl := Option.some.inj h
        exact .close closing found
      · obtain rfl := Option.some.inj h
        exact .goOn _ _ fun _ _ => Call.noConfusion
    · cases h

/-! ## Closing -/

/-- The address and the connection of the call that is to close the tunnel. -/
def closer (m : TunnelManager) : TunnelEvent → Option (String × Nat)
  | .closeTunnel i =>
    match m.calls[i]? with
    | some (.closing addr conn) => some (addr, conn)
    | _ => none
  | _ => none

/-- A call that closes the tunnel finds its own connection under the address, or none. -/
def ClosesOwn (m : TunnelManager) (e : TunnelEvent) : Prop :=
  ∀ x ∈ m.closer e, ∀ conn ∈ m.tunnels.lookup x.1, conn = x.2

instance (m : TunnelManager) (e : TunnelEvent) : Decidable (m.ClosesOwn e) :=
  inferInstanceAs (Decidable (∀ x ∈ m.closer e, ∀ conn ∈ m.tunnels.lookup x.1, conn = x.2))

/-- A call is about to close only after a failure on its connection. -/
structure Blamed (m : TunnelManager) : Prop where
  closing : ∀ addr conn, .closing addr conn ∈ m.calls → conn ∈ m.failed
  closed : ∀ conn ∈ m.closed, conn ∈ m.failed

theorem mem_goOn {m : TunnelManager} {i : Nat} {c : Call} {addr : String} {conn : Nat}
    (mem : .closing addr conn ∈ (m.goOn i c).calls) :
    c = .closing addr conn ∨ .closing addr conn ∈ m.calls := by
  obtain same | old := List.mem_or_eq_of_mem_set mem |>.symm
  · exact .inl same.symm
  · exact .inr old

theorem blamed_step {m m' : TunnelManager} {e : TunnelEvent} (inv : m.Blamed)
    (own : m.ClosesOwn e) (step : Step m e m') : m'.Blamed := by
  cases step with
  | call c other =>
    refine ⟨fun addr conn mem => ?_, inv.closed⟩
    obtain old | new := List.mem_append.mp mem
    · exact inv.closing addr conn old
    · exact absurd (List.mem_singleton.mp new).symm (other addr conn)
  | goOn i c other =>
    refine ⟨fun addr conn mem => ?_, inv.closed⟩
    exact inv.closing addr conn ((mem_goOn mem).resolve_left (other addr conn))
  | dial =>
    refine ⟨fun addr conn mem => ?_, inv.closed⟩
    exact inv.closing addr conn ((mem_goOn mem).resolve_left Call.noConfusion)
  | fail i addr conn =>
    refine ⟨fun addr' conn' mem => ?_, fun conn' mem => ?_⟩
    · obtain same | old := mem_goOn mem
      · cases same
        exact List.mem_append_right _ List.mem_cons_self
      · exact List.mem_append_left _ (inv.closing addr' conn' old)
    · exact List.mem_append_left _ (inv.closed conn' mem)
  | @close i addr conn₀ conn closing found =>
    have same : conn = conn₀ := own (addr, conn₀) (by simp [closer, closing]) conn found
    refine ⟨fun addr' conn' mem => ?_, fun conn' mem => ?_⟩
    · exact inv.closing addr' conn' ((mem_goOn mem).resolve_left Call.noConfusion)
    · obtain old | new := List.mem_append.mp mem
      · exact inv.closed conn' old
      · obtain rfl := List.mem_singleton.mp new
        rw [same]
        exact inv.closing addr conn₀ (List.mem_of_getElem? closing)

/-- **A tunnel is closed only for its own failure.** In a run in which every call that closes
the tunnel finds its own connection or none, every connection that `CloseTunnel` has closed
is one on which an operation has failed. -/
theorem closed_for_failure {m : TunnelManager} (run : Run (Moves next) ClosesOwn init m) :
    ∀ conn ∈ m.closed, conn ∈ m.failed := by
  have blamed : m.Blamed := by
    apply run.invariant (P := Blamed)
    · exact fun _ _ _ inv own move => blamed_step inv own (step_of_next move)
    · exact ⟨fun _ _ none => absurd none List.not_mem_nil,
        fun _ none => absurd none List.not_mem_nil⟩
  exact blamed.closed

/-- Two calls fail on connection 0. After the first has closed the tunnel, a third call dials
connection 1, and the second closes that. -/
theorem healthy_tunnel_closed :
    ∃ m, Run (Moves next) (fun _ _ => True) init m ∧ m.failed = [0, 0] ∧ m.closed = [0, 1] := by
  apply Run.exists_of_checked [.sendPacket (some 7), .look 0, .getOrCreate 0 true,
    .sendPacket (some 7), .look 1, .openUniStream 0 false, .openUniStream 1 false,
    .closeTunnel 0, .sendPacket (some 7), .look 2, .getOrCreate 2 true, .closeTunnel 1]
  decide +kernel

theorem closed_for_failure_one :
    ∃ m, Run (Moves next) ClosesOwn init m ∧ m.closed = [0] ∧
      ∀ conn ∈ m.closed, conn ∈ m.failed := by
  have ran : ∃ m, Run (Moves next) ClosesOwn init m ∧ m.closed = [0] := by
    apply Run.exists_of_checked [.sendPacket (some 7), .look 0, .getOrCreate 0 true,
      .sendPacket (some 7), .look 1, .openUniStream 0 false, .openUniStream 1 false,
      .closeTunnel 0, .closeTunnel 1]
    decide +kernel
  obtain ⟨m, run, closed⟩ := ran
  exact ⟨m, run, closed, closed_for_failure run⟩

end TunnelManager

end SkyAccel.Tunnel
