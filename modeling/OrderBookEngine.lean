import OrderBookEngine.Lib.SortedMap
import OrderBookEngine.Refine.Run
import OrderBookEngine.Market.Ledger
import OrderBookEngine.Properties.Outcomes
import OrderBookEngine.Properties.Refusals
import OrderBookEngine.Properties.Ownership
import OrderBookEngine.Properties.Lifecycle
import OrderBookEngine.Properties.StopList
import OrderBookEngine.Market.Trades
import OrderBookEngine.Properties.Triggers
import OrderBookEngine.Properties.Protection
import OrderBookEngine.Properties.Priority
import OrderBookEngine.Properties.Sweeps
import OrderBookEngine.Properties.CodecRoundTrip
import OrderBookEngine.Properties.HandOver
import OrderBookEngine.Properties.Crossing
import OrderBookEngine.Properties.DirectMatching
import OrderBookEngine.Properties.Breaker
import OrderBookEngine.Properties.Limits
import OrderBookEngine.Properties.Depth
import OrderBookEngine.Properties.Representation
import OrderBookEngine.Properties.WashTrades
import OrderBookEngine.Properties.Cascades
import OrderBookEngine.Properties.Halts
import OrderBookEngine.Properties.Fills
import OrderBookEngine.Properties.Replay
import OrderBookEngine.Server.Serve
import OrderBookEngine.Server.EngineNode
import OrderBookEngine.Properties.WorkerContract
import OrderBookEngine.Properties.Partition
import OrderBookEngine.Properties.Streams
import OrderBookEngine.Properties.Replies
import OrderBookEngine.Properties.Resume
import OrderBookEngine.Properties.Snapshots
import OrderBookEngine.Properties.Subscriptions
import OrderBookEngine.Properties.Shutdown
import OrderBookEngine.Properties.Agreement
import OrderBookEngine.Properties.Draining
import OrderBookEngine.Properties.Consistency
import OrderBookEngine.Server.Reader
import OrderBookEngine.Properties.Messages
import OrderBookEngine.Properties.Requested
import OrderBookEngine.Properties.Readers
import OrderBookEngine.Properties.Queueing
import OrderBookEngine.Properties.Routing
import OrderBookEngine.Properties.Submissions
