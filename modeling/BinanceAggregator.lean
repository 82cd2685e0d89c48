import BinanceAggregator.Runs
import BinanceAggregator.Tally
import BinanceAggregator.Bytes
import BinanceAggregator.Decimal
import BinanceAggregator.Stats
import BinanceAggregator.Aggregator
import BinanceAggregator.AggregatorTable
import BinanceAggregator.AggregatorHistory
import BinanceAggregator.Volume
import BinanceAggregator.Json
import BinanceAggregator.TradeParser
import BinanceAggregator.Snapshot
import BinanceAggregator.Queue
import BinanceAggregator.QueueThreads
import BinanceAggregator.Pipeline
import BinanceAggregator.PipelineSteps
import BinanceAggregator.PipelineShape
import BinanceAggregator.PipelineFlow
import BinanceAggregator.Lossless
import BinanceAggregator.PipelineShards
import BinanceAggregator.Unsplit
import BinanceAggregator.PipelineFlush
import BinanceAggregator.Timestamps
import BinanceAggregator.Collected
import BinanceAggregator.Single
import BinanceAggregator.Following
import BinanceAggregator.Sharding
import BinanceAggregator.Backoff
import BinanceAggregator.Network
import BinanceAggregator.NetworkSteps
import BinanceAggregator.Mutex
import BinanceAggregator.NetworkLocks
import BinanceAggregator.StopRequest
import BinanceAggregator.Reconnects
import BinanceAggregator.PipelineLocks
import BinanceAggregator.PipelineProgress
import BinanceAggregator.NetworkProgress
import BinanceAggregator.Service
import BinanceAggregator.WakeUps
import BinanceAggregator.Literal
import BinanceAggregator.DecimalRange
import BinanceAggregator.DecimalText
import BinanceAggregator.Reordering
import BinanceAggregator.Chronology
import BinanceAggregator.Separated
import BinanceAggregator.OutputFormat
import BinanceAggregator.WellFormed
import BinanceAggregator.FailedWrite
import BinanceAggregator.ConfigLoader
import BinanceAggregator.StreamTarget
import BinanceAggregator.Listing
import BinanceAggregator.ClosedWindows
import BinanceAggregator.Interference
import BinanceAggregator.PolicyStop
import BinanceAggregator.ClientRun
import BinanceAggregator.ClientStop
import BinanceAggregator.ErrorHandler
import BinanceAggregator.ClientAttempt
import BinanceAggregator.Fallible
import BinanceAggregator.Acceptance
import BinanceAggregator.Linearization
import BinanceAggregator.Delivery
import BinanceAggregator.EndToEnd
import BinanceAggregator.Shutdown
import BinanceAggregator.Calendar
import BinanceAggregator.Iso8601
import BinanceAggregator.FileOutputSink
import BinanceAggregator.Recovery
import BinanceAggregator.Pacing
import BinanceAggregator.Provenance
import BinanceAggregator.Lateness
import BinanceAggregator.Promptness
import BinanceAggregator.TradeMessage
import BinanceAggregator.Races
import BinanceAggregator.Startup
import BinanceAggregator.Unstarted
