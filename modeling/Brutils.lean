import Brutils.Json.Generator
import Brutils.Proofs.Json.RoundTrip
import Brutils.Proofs.Json.Acceptance
import Brutils.Proofs.Json.Termination
import Brutils.Proofs.Signal
import Brutils.Tcp.Server
import Brutils.Proofs.Tcp.Tables
import Brutils.Proofs.Timers.CombinedTimer
import Brutils.Lib.Least
import Brutils.Proofs.Timers.RecordBook
import Brutils.Proofs.Timers.Delivery
import Brutils.Http.Request
import Brutils.Http.RequestParser
import Brutils.Http.Message
import Brutils.Proofs.Http.Stream
import Brutils.Proofs.Json.Ordered
import Brutils.Proofs.QueuePc
import Brutils.Http.Response
import Brutils.Proofs.Http.Response
import Brutils.Proofs.Timers.TimerIds
import Brutils.Proofs.Tcp.PollRound
import Brutils.Proofs.Tcp.OpenDescriptors
import Brutils.Lib.InverseMaps
import Brutils.Proofs.Tcp.TimerMaps
import Brutils.EventLoop
import Brutils.Proofs.EventLoop
import Brutils.Proofs.Json.Forgery
import Brutils.Proofs.Json.BrokenArrays
import Brutils.Proofs.Json.Formatting
import Brutils.Proofs.Json.Parsed
import Brutils.Proofs.Json.Reencoding
import Brutils.Proofs.Http.Cursor
import Brutils.Proofs.Http.Exceptions
import Brutils.Proofs.Tcp.Transfer
import Brutils.Proofs.Timers.Wakeups
import Brutils.Json.Number
import Brutils.Proofs.Json.Numbers
import Brutils.Json.Document
import Brutils.Proofs.Json.Documents
import Brutils.Proofs.Json.Truncation
import Brutils.Proofs.Thread.ThreadPool
import Brutils.Proofs.Http.Async
import Brutils.Proofs.Http.HeaderBlock
import Brutils.Proofs.Http.Lookup
import Brutils.Lib.Mutex
import Brutils.Proofs.Tcp.Registration
import Brutils.Proofs.Thread.PoolMaps
import Brutils.Proofs.Timers.Locking
import Brutils.Emitting
import Brutils.Proofs.Emitting
import Brutils.Proofs.Http.QueryRanges
import Brutils.Proofs.Json.Progress
import Brutils.Proofs.StringUtils
import Brutils.Lib.Fairness
import Brutils.Proofs.Tcp.Lifecycle
import Brutils.Proofs.Tcp.Reconnecting
import Brutils.Proofs.Timers.Timer
import Brutils.Lib.Places
import Brutils.Proofs.QueueWaiting
import Brutils.Proofs.Tcp.Destructor
import Brutils.Proofs.Tcp.Timeout
import Brutils.Proofs.ThreadedObject
import Brutils.Proofs.ThreadedObject.Progress
import Brutils.Http.Passes
import Brutils.Http.ResponseCalls
import Brutils.Proofs.Http.OneRequest
import Brutils.Proofs.Http.Outline
import Brutils.Proofs.StringUtils.Overloads
import Brutils.Proofs.Tcp.Errors
import Brutils.Proofs.Timers.FairRuns
import Brutils.Proofs.Timers.Firing
import Brutils.Proofs.Timers.KeeperDestructor
import Brutils.Proofs.QueuedEvents
import Brutils.Proofs.QueuedEvents.Accounts
import Brutils.Proofs.QueuedEvents.Outliving
