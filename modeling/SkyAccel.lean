import SkyAccel.Lib.Deviation
import SkyAccel.Lib.Heap
import SkyAccel.Lib.Sort
import SkyAccel.Lib.Strings
import SkyAccel.Lib.Walk
import SkyAccel.Routing.Graph
import SkyAccel.Routing.KShortest
import SkyAccel.Routing.Search
import SkyAccel.Routing.Spur
import SkyAccel.Routing.Yen
import SkyAccel.Routing.Computing
import SkyAccel.Routing.Entry
import SkyAccel.Routing.Optimality
import SkyAccel.Routing.LiveStyle
import SkyAccel.Lib.Bytes
import SkyAccel.Lib.Net
import SkyAccel.Tunnel.Packet
import SkyAccel.Tunnel.Overrun
import SkyAccel.Tunnel.Handler
import SkyAccel.Aggregator.Message
import SkyAccel.Tunnel.Journey
import SkyAccel.Server.Request
import SkyAccel.Server.RoundTrip
import SkyAccel.Aggregator.Worker
import SkyAccel.Aggregator.Version
import SkyAccel.Aggregator.Timed
import SkyAccel.Aggregator.Books
import SkyAccel.Aggregator.Progress
import SkyAccel.Aggregator.ExactlyOnce
import SkyAccel.Aggregator.Isolation
import SkyAccel.Aggregator.Eviction
import SkyAccel.Aggregator.Intake
import SkyAccel.Aggregator.Delivery
import SkyAccel.Aggregator.Deadlines
import SkyAccel.Aggregator.LiveRemovals
import SkyAccel.Aggregator.Acceptance
import SkyAccel.Tunnel.Codec
import SkyAccel.Tunnel.Truncation
import SkyAccel.Control.GraphManager
import SkyAccel.Control.GlobalStats
import SkyAccel.Control.Watch
import SkyAccel.Lib.Shuffle
import SkyAccel.Routing.Carousel
import SkyAccel.Routing.Percentile
import SkyAccel.Routing.CarouselSearch
import SkyAccel.Routing.CarouselExact
import SkyAccel.Routing.CarouselRun
import SkyAccel.Routing.CarouselFlow
import SkyAccel.Routing.CarouselPaths
import SkyAccel.Routing.CarouselBest
import SkyAccel.Routing.CarouselDestinations
import SkyAccel.Routing.OneWan
import SkyAccel.Routing.OneWanSelection
import SkyAccel.Routing.OneWanComplete
import SkyAccel.Control.Probing
import SkyAccel.Control.Origins
import SkyAccel.Control.Startup
import SkyAccel.Server.Disaggregator
import SkyAccel.Tunnel.Manager
import SkyAccel.Server.Responses
import SkyAccel.Lib.Averages
import SkyAccel.LastMile.Routers
import SkyAccel.LastMile.Distribution
import SkyAccel.LastMile.Smoothing
import SkyAccel.LastMile.Shares
import SkyAccel.LastMile.Observations
import SkyAccel.LastMile.Dominance
import SkyAccel.LastMile.Lookup
import SkyAccel.LastMile.IPOverride
import SkyAccel.LastMile.AccessLog
import SkyAccel.Aggregator.Outgoing
import SkyAccel.Aggregator.Labels
import SkyAccel.Server.SharedBatches
import SkyAccel.Server.RouteCache
import SkyAccel.Server.DestinationPort
import SkyAccel.Server.Listeners
import SkyAccel.Lib.Lines
import SkyAccel.Server.KeepAlive
import SkyAccel.Backsourcer.ConnPool
import SkyAccel.Backsourcer.Ownership
import SkyAccel.Server.RateLimiter
import SkyAccel.Lib.Tally
import SkyAccel.Network.Proxies
import SkyAccel.Network.AtMostOnce
import SkyAccel.Aggregator.SendPipeline
import SkyAccel.Backsourcer.OwnAnswers
import SkyAccel.Control.RouteAPI
import SkyAccel.Network.Service
import SkyAccel.Aggregator.Latency
import SkyAccel.Lib.WorkQueue
import SkyAccel.Server.Connections
import SkyAccel.Control.ProbeRound
import SkyAccel.Network.OwnRoutes
