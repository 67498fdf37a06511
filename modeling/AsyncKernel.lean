import AsyncKernel.Foundation.Bits
import AsyncKernel.Foundation.Outcome
import AsyncKernel.Foundation.Transition
import AsyncKernel.Foundation.Notify
import AsyncKernel.Foundation.Parties
import AsyncKernel.Foundation.Reader
import AsyncKernel.Foundation.WakeLoop
import AsyncKernel.Paging.Entry
import AsyncKernel.Paging.GenericPaging
import AsyncKernel.Paging.Fields
import AsyncKernel.Paging.MapCall
import AsyncKernel.Paging.Slots
import AsyncKernel.Paging.Walk
import AsyncKernel.Paging.Lookup
import AsyncKernel.Paging.Tree
import AsyncKernel.Paging.Represent
import AsyncKernel.Paging.Refine
import AsyncKernel.Paging.Run
import AsyncKernel.Paging.Effect
import AsyncKernel.Paging.Coverage
import AsyncKernel.Paging.Alignment
import AsyncKernel.Paging.Shape
import AsyncKernel.Paging.KernelSpace
import AsyncKernel.Paging.StaleRoot
import AsyncKernel.Paging.Isolation
import AsyncKernel.Paging.Canonical
import AsyncKernel.Paging.Misaligned
import AsyncKernel.Paging.Idempotent
import AsyncKernel.Paging.Split
import AsyncKernel.Paging.Megapages
import AsyncKernel.Paging.Decompose
import AsyncKernel.Paging.Superpages
import AsyncKernel.Paging.Boot
import AsyncKernel.Executor.Model
import AsyncKernel.Executor.Round
import AsyncKernel.Executor.Schedule
import AsyncKernel.Executor.Stranded
import AsyncKernel.Executor.MainLoop
import AsyncKernel.Executor.Completion
import AsyncKernel.Executor.Relabel
import AsyncKernel.Executor.Ledger
import AsyncKernel.Executor.Harts
import AsyncKernel.Executor.Alone
import AsyncKernel.Executor.Locking
import AsyncKernel.Executor.Deadlock
import AsyncKernel.Executor.WaitFuture
import AsyncKernel.Executor.LocalNotify
import AsyncKernel.Executor.Watched
import AsyncKernel.Executor.RcWaker
import AsyncKernel.Locks.Spin
import AsyncKernel.Locks.InterruptRwLock
import AsyncKernel.Locks.HartLockCount
import AsyncKernel.Locks.Shared
import AsyncKernel.Locks.Balance
import AsyncKernel.Locks.InterruptsOff
import AsyncKernel.Locks.Nested
import AsyncKernel.Locks.Sent
import AsyncKernel.Locks.SimpleShared
import AsyncKernel.Locks.AsyncMutex
import AsyncKernel.Locks.AsyncRwLock
import AsyncKernel.Locks.LostWaker
import AsyncKernel.Locks.Restore
import AsyncKernel.Locks.SimpleNested
import AsyncKernel.ArcInject.Counts
import AsyncKernel.ArcInject.Destroy
import AsyncKernel.Process.Resume
import AsyncKernel.Process.AddressSpace
import AsyncKernel.Process.Preempt
import AsyncKernel.Process.Identity
import AsyncKernel.Process.Syscall
import AsyncKernel.DeviceTree.Node
import AsyncKernel.DeviceTree.Guess
import AsyncKernel.DeviceTree.Build
import AsyncKernel.DeviceTree.Flatten
import AsyncKernel.DeviceTree.Inverse
import AsyncKernel.DeviceTree.Lost
import AsyncKernel.DeviceTree.Phandles
import AsyncKernel.DeviceTree.Resolve
import AsyncKernel.DeviceTree.Get
import AsyncKernel.DeviceTree.Init
import AsyncKernel.Startup.Harts
import AsyncKernel.Startup.Progress
import AsyncKernel.Drivers.Plic
import AsyncKernel.Streams.Read
import AsyncKernel.Streams.Collect
import AsyncKernel.Streams.Vectored
import AsyncKernel.Drivers.PlicHarts
