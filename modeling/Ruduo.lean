import Ruduo.Lib.Run
import Ruduo.Lib.DoublyLinked
import Ruduo.Lib.Slab
import Ruduo.Lib.PicksFirst
import Ruduo.Lib.Outcome
import Ruduo.Lib.WhileLoop
import Ruduo.Lib.BigEndian
import Ruduo.Lib.DeferredRemoval
import Ruduo.Lib.Trace
import Ruduo.Lib.RoundRobin
import Ruduo.Lib.Utf8
import Ruduo.Lib.Latch
import Ruduo.Model.Fault
import Ruduo.Model.Timer
import Ruduo.Model.LoopTimer
import Ruduo.Model.Buffer
import Ruduo.Model.Mio
import Ruduo.Model.Connection
import Ruduo.Model.Dispatcher
import Ruduo.Model.EventLoop
import Ruduo.Model.Worker
import Ruduo.Model.Pool
import Ruduo.Model.WorkerLoop
import Ruduo.Model.Service
import Ruduo.Model.ThreadPool
import Ruduo.Model.Server
import Ruduo.Model.Text
import Ruduo.Model.Chat
import Ruduo.Spec.PendingSet
import Ruduo.Spec.Deadline
import Ruduo.Spec.StaleHandle
import Ruduo.Spec.Waking
import Ruduo.Spec.Scheduling
import Ruduo.Spec.Passing
import Ruduo.Spec.CatchUp
import Ruduo.Spec.Representation
import Ruduo.Spec.ByteQueue
import Ruduo.Spec.TypedValues
import Ruduo.Spec.Growth
import Ruduo.Spec.Registration
import Ruduo.Spec.OutgoingStream
import Ruduo.Spec.Writing
import Ruduo.Spec.ShutdownRequest
import Ruduo.Spec.Announcement
import Ruduo.Spec.Lifecycle
import Ruduo.Spec.Delivery
import Ruduo.Spec.Directory
import Ruduo.Spec.Periodic
import Ruduo.Spec.Limit
import Ruduo.Spec.Cancellation
import Ruduo.Spec.OneShot
import Ruduo.Spec.Removal
import Ruduo.Spec.Stopping
import Ruduo.Spec.Closing
import Ruduo.Spec.Accepting
import Ruduo.Spec.LoopSelection
import Ruduo.Spec.ConnectionRun
import Ruduo.Spec.ByteStreams
import Ruduo.Spec.GracefulShutdown
import Ruduo.Spec.FailedConnect
import Ruduo.Spec.EndlessWriting
import Ruduo.Spec.Traffic
import Ruduo.Spec.Server
import Ruduo.Spec.Text
import Ruduo.Spec.Stranding
import Ruduo.Spec.Chat
import Ruduo.Proofs.Timer.Faults
import Ruduo.Proofs.Timer.Wheel
import Ruduo.Proofs.Timer.Insertion
import Ruduo.Proofs.Timer.Unlinking
import Ruduo.Proofs.Timer.Timing
import Ruduo.Proofs.Timer.Refinement
import Ruduo.Proofs.Timer.Lateness
import Ruduo.Proofs.Timer.Earliness
import Ruduo.Proofs.Timer.CatchUp
import Ruduo.Proofs.Timer.StaleHandle
import Ruduo.Proofs.Timer.Waking
import Ruduo.Proofs.Timer.Scheduling
import Ruduo.Proofs.Timer.Passing
import Ruduo.Proofs.Timer.Representation
import Ruduo.Proofs.Timer.Tracking
import Ruduo.Proofs.Buffer.Refinement
import Ruduo.Proofs.Buffer.TypedValues
import Ruduo.Proofs.Buffer.Growth
import Ruduo.Proofs.Buffer.Text
import Ruduo.Proofs.Connection.Sessions
import Ruduo.Proofs.Connection.Registration
import Ruduo.Proofs.Connection.OutgoingStream
import Ruduo.Proofs.Connection.Writing
import Ruduo.Proofs.Connection.WriteTermination
import Ruduo.Proofs.Connection.ShutdownRequest
import Ruduo.Proofs.Connection.Announcement
import Ruduo.Proofs.Connection.Closing
import Ruduo.Proofs.EventLoop.Wakeup
import Ruduo.Proofs.EventLoop.Accepting
import Ruduo.Proofs.EventLoop.LoopSelection
import Ruduo.Proofs.EventLoop.Latency
import Ruduo.Proofs.Server.Handlers
import Ruduo.Proofs.Server.Messages
import Ruduo.Proofs.Server.Steps
import Ruduo.Proofs.Server.Lifecycle
import Ruduo.Proofs.Server.Delivery
import Ruduo.Proofs.Server.Placement
import Ruduo.Proofs.Server.Directory
import Ruduo.Proofs.Server.Timers
import Ruduo.Proofs.Server.Periodic
import Ruduo.Proofs.Server.Limit
import Ruduo.Proofs.Server.Logs
import Ruduo.Proofs.Server.Cancellation
import Ruduo.Proofs.Server.Closures
import Ruduo.Proofs.Server.OneShot
import Ruduo.Proofs.Server.Turnover
import Ruduo.Proofs.Server.Removal
import Ruduo.Proofs.Server.Phases
import Ruduo.Proofs.Server.Stopping
import Ruduo.Proofs.Server.Ledger
import Ruduo.Proofs.Server.Closing
import Ruduo.Proofs.Server.ConnectionRun
import Ruduo.Proofs.Server.ByteStreams
import Ruduo.Proofs.Server.GracefulShutdown
import Ruduo.Proofs.Server.FailedConnect
import Ruduo.Proofs.Server.LoopRefinement
import Ruduo.Proofs.Server.EndlessWriting
import Ruduo.Proofs.Server.ServerSteps
import Ruduo.Proofs.Server.Shares
import Ruduo.Proofs.Server.Letters
import Ruduo.Proofs.Server.Sent
import Ruduo.Proofs.Connection.Stranding
import Ruduo.Proofs.Chat.Steps
import Ruduo.Proofs.Chat.Broadcasts
import Ruduo.Proofs.Chat.Users
import Ruduo.Proofs.Chat.Hearing
import Ruduo.Proofs.Chat.Stranding
import Ruduo.Proofs.Chat.Progress
