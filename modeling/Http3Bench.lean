import Http3Bench.Occupancy
import Http3Bench.PsSource
import Http3Bench.Control
import Http3Bench.ControlCalls
import Http3Bench.Procstat
import Http3Bench.SlotTable
import Http3Bench.Server.Table
import Http3Bench.Server.Run
import Http3Bench.Server.Sockets
import Http3Bench.Server.Exchange
import Http3Bench.PartialSends
import Http3Bench.RecordedTurn
import Http3Bench.Server.Recorded
import Http3Bench.Benchreport.Ranking
import Http3Bench.Benchreport.Filters
import Http3Bench.Benchreport.Layout
import Http3Bench.Benchreport.Summary
import Http3Bench.Frameworks.Body
import Http3Bench.Frameworks.Pool
import Http3Bench.Script.Cpus
import Http3Bench.Script.CommandLine
import Http3Bench.Script.Docker
import Http3Bench.Script.Servers
import Http3Bench.RateConns
import Http3Bench.Redials
import Http3Bench.Failures
import Http3Bench.Limited
import Http3Bench.RatePlan
import Http3Bench.Sampling
import Http3Bench.Summary
import Http3Bench.PsStats
import Http3Bench.Pacing
import Http3Bench.Timers
import Http3Bench.FireTimers
import Http3Bench.Accounts
import Http3Bench.Session
import Http3Bench.Pipeline
import Http3Bench.Benchkit.Flags
