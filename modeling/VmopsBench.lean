import VmopsBench.Barrelfish.Barrier
import VmopsBench.Barrelfish.BarrierSafety
import VmopsBench.Barrelfish.CoreOrder
import VmopsBench.Barrelfish.FixedMappings
import VmopsBench.Barrelfish.Memobj
import VmopsBench.Barrelfish.SpinLifetime
import VmopsBench.Barrelfish.SpinRefinement
import VmopsBench.Barrelfish.SpinSystem
import VmopsBench.Barrelfish.StartUp
import VmopsBench.Barrelfish.Topology
import VmopsBench.Barrelfish.Vregion
import VmopsBench.Benchmarks.Alignment
import VmopsBench.Benchmarks.Cleanup
import VmopsBench.Benchmarks.ClockSteps
import VmopsBench.Benchmarks.ClockedRuns
import VmopsBench.Benchmarks.Durations
import VmopsBench.Benchmarks.ElevateUndo
import VmopsBench.Benchmarks.Ending
import VmopsBench.Benchmarks.Handles
import VmopsBench.Benchmarks.MapArguments
import VmopsBench.Benchmarks.ObjectRange
import VmopsBench.Benchmarks.Options
import VmopsBench.Benchmarks.OwnPages
import VmopsBench.Benchmarks.Ownership
import VmopsBench.Benchmarks.PageTurns
import VmopsBench.Benchmarks.Protecting
import VmopsBench.Benchmarks.Quota
import VmopsBench.Benchmarks.Regions
import VmopsBench.Benchmarks.Remapping
import VmopsBench.Benchmarks.Report
import VmopsBench.Benchmarks.SampleCounters
import VmopsBench.Benchmarks.SampleRows
import VmopsBench.Benchmarks.Sampler
import VmopsBench.Benchmarks.ShootLatency
import VmopsBench.Benchmarks.SmallPages
import VmopsBench.Benchmarks.Windows
import VmopsBench.Concurrent.ClockReport
import VmopsBench.Concurrent.Elevation
import VmopsBench.Concurrent.EntryThreads
import VmopsBench.Concurrent.FailedStart
import VmopsBench.Concurrent.Handshake
import VmopsBench.Concurrent.History
import VmopsBench.Concurrent.Isolation
import VmopsBench.Concurrent.Launch
import VmopsBench.Concurrent.Leftovers
import VmopsBench.Concurrent.MeanLatency
import VmopsBench.Concurrent.NoHang
import VmopsBench.Concurrent.Phases
import VmopsBench.Concurrent.Protocol
import VmopsBench.Concurrent.Rounds
import VmopsBench.Concurrent.Samples
import VmopsBench.Concurrent.Success
import VmopsBench.Concurrent.System
import VmopsBench.Concurrent.Termination
import VmopsBench.Driver.AlignedRequests
import VmopsBench.Driver.CommandLine
import VmopsBench.Driver.Console
import VmopsBench.Driver.CoreSelection
import VmopsBench.Driver.CoresList
import VmopsBench.Driver.CsvRow
import VmopsBench.Driver.ExitStatus
import VmopsBench.Driver.Harvest
import VmopsBench.Driver.LatencyRow
import VmopsBench.Driver.Main
import VmopsBench.Driver.OptionOrder
import VmopsBench.Driver.Script
import VmopsBench.Interact.Descent
import VmopsBench.Interact.Embed
import VmopsBench.Interact.Heap
import VmopsBench.Interact.Interpret
import VmopsBench.Interact.Judge
import VmopsBench.Interact.Simulation
import VmopsBench.Interact.Total
import VmopsBench.Interact.Tracking
import VmopsBench.Interact.Turns
import VmopsBench.Order.Filling
import VmopsBench.Order.RoundRobin
import VmopsBench.Platform.AddressSpace
import VmopsBench.Platform.FillOrder
import VmopsBench.Platform.LinuxMaps
import VmopsBench.Platform.LinuxMemobj
import VmopsBench.Platform.PageTable
import VmopsBench.Platform.Pages
import VmopsBench.Platform.Threads
import VmopsBench.Platform.Topology
import VmopsBench.Platform.TopologyErrors
import VmopsBench.Text.Double
import VmopsBench.Text.Expect
import VmopsBench.Text.Fixed
import VmopsBench.Text.Getopt
import VmopsBench.Text.Lines
import VmopsBench.Text.Numeral
import VmopsBench.Text.Printf
import VmopsBench.Text.Tokens
import VmopsBench.Text.Words
import VmopsBench.Words.Arc
