import Upstreamer.Foundations.Dict
import Upstreamer.Foundations.Machine
import Upstreamer.Foundations.Regulator
import Upstreamer.Foundations.Regulated
import Upstreamer.Foundations.Past
import Upstreamer.Foundations.Text
import Upstreamer.Foundations.Glob
import Upstreamer.Foundations.Cyclic
import Upstreamer.Foundations.Average
import Upstreamer.Foundations.Lottery
import Upstreamer.Foundations.Blocks
import Upstreamer.Foundations.IpText
import Upstreamer.Foundations.Json
import Upstreamer.Foundations.Rounds
import Upstreamer.Foundations.Binary
import Upstreamer.Config.Url
import Upstreamer.Config.Uri
import Upstreamer.Config.UrlParser
import Upstreamer.Config.Parser
import Upstreamer.Balance.OriginState
import Upstreamer.Balance.RoundRobin
import Upstreamer.Balance.RoundRobinShares
import Upstreamer.Balance.Weighted
import Upstreamer.Balance.WeightedShares
import Upstreamer.Balance.FloatSelection
import Upstreamer.Balance.MetricsFallback
import Upstreamer.Balance.LatencyAverage
import Upstreamer.Balance.LatencyRaces
import Upstreamer.Balance.HealthRuns
import Upstreamer.Balance.HealthRaces
import Upstreamer.Balance.RaceTotals
import Upstreamer.Middleware.RateLimit
import Upstreamer.Middleware.Envelope
import Upstreamer.Middleware.Eviction
import Upstreamer.Middleware.Memory
import Upstreamer.Middleware.Isolation
import Upstreamer.Middleware.Tracking
import Upstreamer.Middleware.FloatBuckets
import Upstreamer.Middleware.Errors
import Upstreamer.Route
import Upstreamer.State
import Upstreamer.Config.Reload
import Upstreamer.Config.Watcher
import Upstreamer.Config.RefusedContents
import Upstreamer.Middleware.RouteLimits
import Upstreamer.Server
import Upstreamer.Route.Hosts
import Upstreamer.Route.Repetitions
import Upstreamer.Route.Builders
import Upstreamer.Route.Shadowing
import Upstreamer.Server.Framing
import Upstreamer.Server.Answers
import Upstreamer.Server.OutgoingUri
import Upstreamer.Server.AcceptLoops
import Upstreamer.Health.Checker
import Upstreamer.Health.ProbeUrls
import Upstreamer.Health.Discovery
import Upstreamer.Health.ServiceAddress
import Upstreamer.Health.Pools
import Upstreamer.Health.StaleServices
import Upstreamer.Health.ClientFaults
import Upstreamer.Health.SharedCounters
import Upstreamer.Health.Report
import Upstreamer.System
import Upstreamer.System.Sequential
import Upstreamer.System.Coverage
import Upstreamer.System.Staleness
import Upstreamer.System.Progress
import Upstreamer.System.Histories
import Upstreamer.System.OriginGauges
import Upstreamer.System.ProbeRounds
import Upstreamer.System.Settings
import Upstreamer.System.Restart
import Upstreamer.System.LimiterGap
import Upstreamer.System.Clock
import Upstreamer.System.GlobalLimit
import Upstreamer.System.ReloadBursts
import Upstreamer.System.PassiveOff
import Upstreamer.System.Checks
import Upstreamer.System.Recovery
import Upstreamer.System.OriginRecords
import Upstreamer.System.AtomicRecords
import Upstreamer.System.Reports
import Upstreamer.System.Journeys
import Upstreamer.System.Addresses
import Upstreamer.System.Failover
import Upstreamer.System.Fairness
import Upstreamer.System.ProbeTiming
