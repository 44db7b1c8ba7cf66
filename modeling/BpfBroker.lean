import BpfBroker.Lib.BoundedMap
import BpfBroker.Lib.Prog
import BpfBroker.Lib.EarlyExit
import BpfBroker.Lib.Server
import BpfBroker.Lib.System
import BpfBroker.Lib.Buffer
import BpfBroker.Lib.CString
import BpfBroker.Lib.OnesComplement
import BpfBroker.Lib.Text
import BpfBroker.Lib.Decimal
import BpfBroker.Lib.Bisect
import BpfBroker.Lib.Tally
import BpfBroker.Lib.Rounding
import BpfBroker.Lib.OrderStatistics
import BpfBroker.Lib.Workers
import BpfBroker.Lib.Broadcast
import BpfBroker.Topic
import BpfBroker.Packet
import BpfBroker.Control
import BpfBroker.Directory
import BpfBroker.Publish
import BpfBroker.Checksum
import BpfBroker.Reference
import BpfBroker.Intercept
import BpfBroker.OddLength
import BpfBroker.Hash.Model
import BpfBroker.Hash.Invariant
import BpfBroker.Hash.Datapath
import BpfBroker.Hash.Delivery
import BpfBroker.Hash.Checksum
import BpfBroker.Hash.FanOut
import BpfBroker.Hash.ZeroChecksum
import BpfBroker.Hash.HelperFailure
import BpfBroker.Hash.Counter
import BpfBroker.Hash.Rollback
import BpfBroker.Hash.Statistics
import BpfBroker.Hash.Concurrent
import BpfBroker.Hash.DropRace
import BpfBroker.Hash.Interleaving
import BpfBroker.Clone.Model
import BpfBroker.Clone.Invariant
import BpfBroker.Clone.Datapath
import BpfBroker.Clone.Delivery
import BpfBroker.Clone.Checksum
import BpfBroker.Clone.Concurrent
import BpfBroker.Clone.FlushRace
import BpfBroker.Naming
import BpfBroker.Compare
import BpfBroker.Acknowledge
import BpfBroker.TopicBuffer
import BpfBroker.Isolation
import BpfBroker.Capacity
import BpfBroker.Trailer
import BpfBroker.PassThrough
import BpfBroker.UserSpace
import BpfBroker.Replacement
import BpfBroker.Benchmark.Message
import BpfBroker.Benchmark.Subscriber
import BpfBroker.Benchmark.Latency
import BpfBroker.Benchmark.Ndr
import BpfBroker.Benchmark.Publisher
import BpfBroker.Benchmark.Numbering
import BpfBroker.Benchmark.Accounting
import BpfBroker.Benchmark.Setup
import BpfBroker.Benchmark.Forwarding
import BpfBroker.Benchmark.EndToEnd
import BpfBroker.Benchmark.Report
import BpfBroker.Benchmark.Baseline
import BpfBroker.Loader.Model
import BpfBroker.Loader.Start
import BpfBroker.Loader.Safety
import BpfBroker.Loader.Process
import BpfBroker.Loader.Handover
