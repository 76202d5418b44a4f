import Whusp.Task.Kill
import Whusp.Sync.RawSleepLock
import Whusp.Drivers.BlockCacheCoherence
import Whusp.Drivers.VirtioBlock
import Whusp.Arch.Signal
import Whusp.Fs.DirtyPage
import Whusp.Fs.EventFd
import Whusp.Fs.InodeState
import Whusp.Fs.PipeAtomic
import Whusp.Fs.TextBusy
import Whusp.Fs.Tmpfs
import Whusp.Arch.Asid
import Whusp.Mm.AccessedDirty
import Whusp.Mm.HoleSearch
import Whusp.Mm.SharedAnonymous
import Whusp.Mm.ShmAccounting
import Whusp.Mm.Shootdown
import Whusp.Mm.FrameAllocator
import Whusp.Task.FutexConservation
import Whusp.Task.ThreadSlots
import Whusp.Task.Exec
import Whusp.Fs.Vfs.FileWriters
import Whusp.Fs.Vfs.PageCacheEpoch
import Whusp.Fs.Vfs.Path
import Whusp.Syscall.FdLockWaiters
import Whusp.Task.ChildExit
import Whusp.Task.BlockBoundary
import Whusp.Task.RunQueues
import Whusp.Syscall.SemBlocking
import Whusp.Syscall.Msg
import Whusp.Syscall.EpollEdge
import Whusp.Syscall.SignalPermission
import Whusp.Net.StreamSend
import Whusp.Arch.SignalDelivery
