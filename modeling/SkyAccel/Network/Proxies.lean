import SkyAccel.Aggregator.Outgoing
import SkyAccel.Lib.Run
import SkyAccel.Server.Request
import SkyAccel.Tunnel.Truncation

/-!
# The proxies of a network

Any number of data proxies that run `main.go`, each with its two aggregators, the tasks of
its back-sourcers and the handler of its tunnel, and the frames that are on their way between
them. Every goroutine of every proxy goes on at any time, frames overtake each other and get
lost, and origins answer whatever they like.

The listeners, the workers, the handler of frames and the back-sourcer are those modelled
elsewhere: here they are put together. The lists `requests`, `submitted`, `answered` and
`delivered`, and what a frame has in `dir` and `subs`, are history.
-/

namespace SkyAccel.Network

open Aggregator (AggregatorMsg Config SendInfo State records)
open Server (Dispatch)
open Tunnel (BackSourceTask SubPacket handleQUICPacket headerSize)

/-- `GlobalAggRequest` or `GlobalAggResponse`. -/
inductive Direction
  | request
  | response
  deriving DecidableEq

/-- An aggregator: its channel and its workers. -/
structure Agg where
  inputChan : List AggregatorMsg
  workers : List State

/-- A proxy. `tasks` are those submitted to its back-sourcers and not yet done. -/
structure Node where
  addr : UInt32
  agg : Direction → Agg
  tasks : List BackSourceTask
  crashed : Bool

/-- A frame on its way to an address. -/
structure Flight where
  dir : Direction
  addr : UInt32
  pkt : List UInt8
  subs : List SubPacket

structure System where
  nodes : List Node
  flights : List Flight
  requests : List SubPacket
  submitted : List BackSourceTask
  answered : List (BackSourceTask × List UInt8)
  delivered : List SubPacket

/-- A listener of node `n` has read a request; worker `i` of an aggregator takes a message or
goes on; the first `len` bytes of frame `k` arrive at node `n`; the frame is lost; a
back-sourcer of node `n` has done task `k`. -/
inductive Event
  | handleConnection (n : Nat) (routing : List (List String)) (reqID : UInt32) (conn : List UInt8)
  | handleUDPConnection (n : Nat) (routing : List (List String)) (reqID : UInt32)
      (data : List UInt8)
  | receive (n : Nat) (d : Direction) (i : Nat)
  | work (n : Nat) (d : Direction) (i : Nat) (e : Aggregator.Event)
  | arrive (k n len : Nat)
  | lose (k : Nat)
  | doOriginRequest (n k : Nat) (answer : Option (List UInt8))

def Node.setAgg (node : Node) (d : Direction) (agg : Agg) : Node :=
  { node with agg := Function.update node.agg d agg }

/-- The frames that a worker hands to `SendPacket`, which fails for a nil IP. -/
def launch (d : Direction) (frames : List SendInfo) : List Flight :=
  frames.filterMap fun f => f.next.map fun addr => ⟨d, addr, f.p, records f.log⟩

/-- A message for the aggregator has a port. -/
def Ported : Dispatch → Prop
  | .add msg => msg.port ≠ 0
  | _ => True

instance : (out : Dispatch) → Decidable (Ported out)
  | .add msg => inferInstanceAs (Decidable (msg.port ≠ 0))
  | .refused | .panic | .direct _ => isTrue trivial

namespace System

/-- Proxies at the addresses, with `workers` workers in each aggregator. -/
def init (addrs : List UInt32) (workers : Nat) : System where
  nodes := addrs.map fun addr =>
    ⟨addr, fun _ => ⟨[], List.replicate workers State.init⟩, [], false⟩
  flights := []
  requests := []
  submitted := []
  answered := []
  delivered := []

variable (s : System)

/-- A node whose process is there. -/
def live (n : Nat) : Option Node :=
  match s.nodes[n]? with
  | some node => if node.crashed then none else some node
  | none => none

def setNode (n : Nat) (node : Node) : System := { s with nodes := s.nodes.set n node }

/-- A panic in one goroutine ends the process. -/
def crash (n : Nat) (node : Node) : System := s.setNode n { node with crashed := true }

def addToBatch (n : Nat) (node : Node) (d : Direction) (msg : AggregatorMsg) : System :=
  s.setNode n
    (node.setAgg d { node.agg d with inputChan := (node.agg d).inputChan ++ [msg] })

/-- The end of a listener. -/
def accept (n : Nat) (node : Node) : Dispatch → System
  | .refused => s
  | .direct _ => s
  | .panic => s.crash n node
  | .add msg =>
    { s.addToBatch n node .request msg with requests := s.requests ++ [msg.sub] }

/-- Worker `i` goes on from `w` to `w'`, and lets its new frames out. -/
def advance (n : Nat) (node : Node) (d : Direction) (inputChan : List AggregatorMsg) (i : Nat)
    (w w' : State) : System :=
  { s.setNode n { node.setAgg d ⟨inputChan, (node.agg d).workers.set i w'⟩ with
      crashed := w'.crashed } with
    flights := s.flights ++ launch d (w'.sent.drop w.sent.length) }

/-- What `HandleQUICPacket` leads to. -/
def handle (n : Nat) (node : Node) (f : Flight) : Tunnel.Effect → System
  | .drop => s
  | .panic => s.crash n node
  | .submit _ tasks =>
    { s.setNode n { node with tasks := node.tasks ++ tasks } with
      submitted := s.submitted ++ tasks }
  | .deliver subs => { s with delivered := s.delivered ++ subs }
  | .forward nextIP pkt =>
    { s with flights := s.flights ++ [{ f with addr := nextIP, pkt := pkt }] }

/-- A stream of a tunnel is read and handled. -/
def arrive (n : Nat) (node : Node) (f : Flight) (len : Nat) : System :=
  match Tunnel.receive (f.pkt.take len) with
  | none => s
  | some pkt => s.handle n node f (handleQUICPacket pkt)

/-- The end of `doOriginRequest`. -/
def reply (n : Nat) (node : Node) (task : BackSourceTask) : Dispatch → System
  | .refused => s
  | .direct _ => s
  | .panic => s.crash n node
  | .add msg =>
    { s.addToBatch n node .response msg with answered := s.answered ++ [(task, msg.data)] }

def next (cfg : Config) : Event → Option System
  | .handleConnection n routing reqID conn => do
    let node ← s.live n
    some (s.accept n node (Server.handleConnection routing reqID conn))
  | .handleUDPConnection n routing reqID data => do
    let node ← s.live n
    some (s.accept n node (Server.handleUDPConnection routing reqID data))
  | .receive n d i => do
    let node ← s.live n
    let w ← (node.agg d).workers[i]?
    match (node.agg d).inputChan with
    | [] => none
    | msg :: rest => (w.next cfg (.receive msg)).map (s.advance n node d rest i w)
  | .work n d i e => do
    let node ← s.live n
    let w ← (node.agg d).workers[i]?
    if e.message = none then
      (w.next cfg e).map (s.advance n node d (node.agg d).inputChan i w)
    else none
  | .arrive k n len => do
    let f ← s.flights[k]?
    let node ← s.live n
    if node.addr = f.addr then
      some (arrive { s with flights := s.flights.eraseIdx k } n node f len)
    else none
  | .lose k => do
    let _ ← s.flights[k]?
    some { s with flights := s.flights.eraseIdx k }
  | .doOriginRequest n k answer => do
    let node ← s.live n
    let task ← node.tasks[k]?
    let rest := { node with tasks := node.tasks.eraseIdx k }
    some (reply (s.setNode n rest) n rest task (Server.doOriginRequest task answer))

/-- Requests go to paths that end with a port, and a frame arrives whole unless its stream
ends within the header. -/
def Regular : Event → Prop
  | .handleConnection _ routing reqID conn => Ported (Server.handleConnection routing reqID conn)
  | .handleUDPConnection _ routing reqID data =>
    Ported (Server.handleUDPConnection routing reqID data)
  | .arrive k _ len => ∀ f ∈ s.flights[k]?, len ≤ headerSize ∨ f.pkt.length ≤ len
  | _ => True

instance : (e : Event) → Decidable (s.Regular e)
  | .handleConnection _ _ _ _ => inferInstanceAs (Decidable (Ported _))
  | .handleUDPConnection _ _ _ _ => inferInstanceAs (Decidable (Ported _))
  | .arrive k _ _ => inferInstanceAs (Decidable (∀ f ∈ s.flights[k]?, _ ∨ _))
  | .receive _ _ _ | .work _ _ _ _ | .lose _ | .doOriginRequest _ _ _ => isTrue trivial

end System

/-! ## What a step can do -/

namespace System

/-- A worker takes the message, or goes on without one. -/
inductive Turn (cfg : Config) (agg : Agg) (w : State) : List AggregatorMsg → State → Prop
  | receive {msg : AggregatorMsg} {rest : List AggregatorMsg} {w' : State} :
      agg.inputChan = msg :: rest → Aggregator.Step cfg w (.receive msg) w' →
      Turn cfg agg w rest w'
  | work {e : Aggregator.Event} {w' : State} : e.message = none → Aggregator.Step cfg w e w' →
      Turn cfg agg w agg.inputChan w'

inductive Step (cfg : Config) (s : System) : Event → System → Prop
  | connection {n : Nat} {node : Node} (routing : List (List String)) (reqID : UInt32)
      (conn : List UInt8) : s.nodes[n]? = some node →
      Step cfg s (.handleConnection n routing reqID conn)
        (s.accept n node (Server.handleConnection routing reqID conn))
  | datagram {n : Nat} {node : Node} (routing : List (List String)) (reqID : UInt32)
      (data : List UInt8) : s.nodes[n]? = some node →
      Step cfg s (.handleUDPConnection n routing reqID data)
        (s.accept n node (Server.handleUDPConnection routing reqID data))
  | turn {e : Event} {n : Nat} {node : Node} {d : Direction} {i : Nat} {w w' : State}
      {inputChan : List AggregatorMsg} : s.nodes[n]? = some node →
      (node.agg d).workers[i]? = some w → Turn cfg (node.agg d) w inputChan w' →
      Step cfg s e (s.advance n node d inputChan i w w')
  | arrive {k n len : Nat} {node : Node} {f : Flight} : s.flights[k]? = some f →
      s.nodes[n]? = some node → node.addr = f.addr → Step cfg s (.arrive k n len)
        (System.arrive { s with flights := s.flights.eraseIdx k } n node f len)
  | lose {k : Nat} {f : Flight} : s.flights[k]? = some f →
      Step cfg s (.lose k) { s with flights := s.flights.eraseIdx k }
  | reply {n k : Nat} {node : Node} {task : BackSourceTask} {answer : Option (List UInt8)} :
      s.nodes[n]? = some node → node.tasks[k]? = some task →
      Step cfg s (.doOriginRequest n k answer)
        (System.reply (s.setNode n { node with tasks := node.tasks.eraseIdx k }) n
          { node with tasks := node.tasks.eraseIdx k } task
          (Server.doOriginRequest task answer))

theorem live_eq {s : System} {n : Nat} {node : Node} (h : s.live n = some node) :
    s.nodes[n]? = some node := by
  unfold live at h
  split at h
  · rename_i found
    split at h
    · cases h
    · exact found.trans h
  · cases h

theorem step_of_next {cfg : Config} {s s' : System} {e : Event} (h : s.next cfg e = some s') :
    Step cfg s e s' := by
  cases e with
  | handleConnection n routing reqID conn =>
    obtain ⟨node, live, h⟩ := Option.bind_eq_some_iff.mp h
    obtain rfl := Option.some.inj h
    exact .connection routing reqID conn (live_eq live)
  | handleUDPConnection n routing reqID data =>
    obtain ⟨node, live, h⟩ := Option.bind_eq_some_iff.mp h
    obtain rfl := Option.some.inj h
    exact .datagram routing reqID data (live_eq live)
  | receive n d i =>
    obtain ⟨node, live, h⟩ := Option.bind_eq_some_iff.mp h
    obtain ⟨w, at_, h⟩ := Option.bind_eq_some_iff.mp h
    split at h
    · cases h
    · rename_i waiting
      obtain ⟨w', moved, rfl⟩ := Option.map_eq_some_iff.mp h
      exact .turn (live_eq live) at_ (.receive waiting (Aggregator.step_of_next cfg moved))
  | work n d i e =>
    obtain ⟨node, live, h⟩ := Option.bind_eq_some_iff.mp h
    obtain ⟨w, at_, h⟩ := Option.bind_eq_some_iff.mp h
    split at h
    · rename_i plain
      obtain ⟨w', moved, rfl⟩ := Option.map_eq_some_iff.mp h
      exact .turn (live_eq live) at_ (.work plain (Aggregator.step_of_next cfg moved))
    · cases h
  | arrive k n len =>
    obtain ⟨f, flying, h⟩ := Option.bind_eq_some_iff.mp h
    obtain ⟨node, live, h⟩ := Option.bind_eq_some_iff.mp h
    split at h
    · rename_i here
      obtain rfl := Option.some.inj h
      exact .arrive flying (live_eq live) here
    · cases h
  | lose k =>
    obtain ⟨f, flying, h⟩ := Option.bind_eq_some_iff.mp h
    obtain rfl := Option.some.inj h
    exact .lose flying
  | doOriginRequest n k answer =>
    obtain ⟨node, live, h⟩ := Option.bind_eq_some_iff.mp h
    obtain ⟨task, at_, h⟩ := Option.bind_eq_some_iff.mp h
    obtain rfl := Option.some.inj h
    exact .reply (live_eq live) at_

end System

end SkyAccel.Network
