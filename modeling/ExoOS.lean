import ExoOS.Arch.FpuInv
import ExoOS.Arch.Clock
import ExoOS.Fs.BcacheInv
import ExoOS.Fs.Partition
import ExoOS.Fs.ElfSafe
import ExoOS.Ipc.Disposition
import ExoOS.Ipc.UserFlags
import ExoOS.Ipc.Sessions
import ExoOS.Ipc.BlockingInv
import ExoOS.Ipc.PipeStream
import ExoOS.Mm.FirstFit
import ExoOS.Mm.PmmInv
import ExoOS.Mm.SharedMapping
import ExoOS.Mm.KmallocSafe
import ExoOS.Net.RoundTrip
import ExoOS.Net.TcpPair
import ExoOS.Net.TcpProgress
import ExoOS.Net.TcpReset
import ExoOS.Net.Nonblock
import ExoOS.Net.UnixCred
import ExoOS.Drivers.OpenHook
import ExoOS.Net.SkbuffOnce
import ExoOS.Net.TcpBounds
import ExoOS.Net.Ports
import ExoOS.Sched.Privilege
import ExoOS.Sched.Registry
import ExoOS.Proc.Termination
import ExoOS.Proc.Spaces
import ExoOS.Proc.UserStack
import ExoOS.Proc.TaskModels
import ExoOS.Sched.Fairness
import ExoOS.Sched.WaitLists
import ExoOS.Vfs.LookupEnds
import ExoOS.Vfs.Normalize
import ExoOS.Vfs.LookupRefs
import ExoOS.Vfs.TmpfsRename
import ExoOS.Vfs.VnodeCopies
import ExoOS.Net.TcpLocks
import ExoOS.Vfs.Getdents
import ExoOS.Vfs.Sendfile
