import OpenMama.OrderBook.BulkDeltas
import OpenMama.OrderBook.LevelEdits
import OpenMama.OrderBook.Conflation
import OpenMama.DepthFilter.ComplexDeltas
import OpenMama.DataQuality.Takeover
import OpenMama.DataQuality.Ring
import OpenMama.Listener.Gaps
import OpenMama.OrderBook.Positions
import OpenMama.FaultTolerance.Timers
import OpenMama.FaultTolerance.Election
import OpenMama.FaultTolerance.Failover
import OpenMama.Throttle
import OpenMama.FieldCache.Replica
import OpenMama.Qpid.Apply
import OpenMama.Qpid.DateTimes
import OpenMama.TradeQuote.Transient
import OpenMama.TradeQuote.Counts
import OpenMama.QuoteBook.Deltas
import OpenMama.Options.Contents
import OpenMama.Options.Visible
import OpenMama.MultiParticipant.Routing
import OpenMama.Subscription.Lifetime
import OpenMama.ImageRequest.References
import OpenMama.Queue.Unblock
import OpenMama.Queue.Concurrent
import OpenMama.Queue.Tape
import OpenMama.Queue.Watermarks
import OpenMama.Queue.Destroy
import OpenMama.Mama.Stats
import OpenMama.Mama.SymbolList
import OpenMama.Qpid.Endpoints
import OpenMama.Playback.RoundTrip
import OpenMama.Common.MRSWLock
import OpenMama.Common.Properties
import OpenMama.Timer.Bridge
import OpenMama.SyncResponder
import OpenMama.ResourcePool
import OpenMama.Common.Iterators
