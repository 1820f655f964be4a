import Kupl.Loop.Policies
import Kupl.Loop.Overflow
import Kupl.Loop.Levels
import Kupl.Dag.Submit
import Kupl.Dag.Room
import Kupl.Dag.RmDup
import Kupl.Graph.Order
import Kupl.Graph.Count
import Kupl.Graph.Rejected
import Kupl.Static.Run
import Kupl.Static.Lambda
import Kupl.Task.Desc
import Kupl.Loop.Nested
import Kupl.Egroup.Next
import Kupl.Egroup.Acquire
import Kupl.Barrier.Ends
import Kupl.Queue.Awaited
import Kupl.Queue.Released
import Kupl.Loop.Polling
import Kupl.Queue.Submit
import Kupl.Taskloop.Storage
import Kupl.Queue.Cycle
import Kupl.Executor.Keep
import Kupl.Executor.Allocs
import Kupl.Ring.Queue
import Kupl.Sched.Once
import Kupl.Sched.Sspe
import Kupl.Sched.Affinity
import Kupl.Mpool.Mapped
import Kupl.Mpool.FastLists
import Kupl.Mpool.Pin
import Kupl.Mem.Copies
import Kupl.Mem.Ranges
import Kupl.Mem.Failures
import Kupl.Memcpy.Async
import Kupl.Fence.Rounds
import Kupl.Fence.Settled
import Kupl.Lock.TicketArray
import Kupl.Core.Init
import Kupl.Core.Users
import Kupl.Shm.Xpmem
import Kupl.Shmc.Fresh
import Kupl.Shmc.RequestList
import Kupl.Shmc.Status
import Kupl.Config.Load
import Kupl.Places.Range
import Kupl.Places.Bind
import Kupl.Places.Domains
import Kupl.Mma.Mma
import Kupl.Mma.Atoms
import Kupl.Mma.Scalar
import Kupl.Mma.Kernels
import Kupl.Taskloop.Lost
import Kupl.Loop.Buffers
import Kupl.Shmc.Offsets
import Kupl.Shmc.Linear
