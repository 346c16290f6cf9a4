import Xv6.BcacheCoherence
import Xv6.CreateTid
import Xv6.Exec
import Xv6.FailedCalls
import Xv6.FileIo
import Xv6.ForkFailure
import Xv6.ForkIsolation
import Xv6.GrepLines
import Xv6.ItableCoherence
import Xv6.JoinReap
import Xv6.Kalloc
import Xv6.KillTargets
import Xv6.KilledSleepers
import Xv6.LastThreadExit
import Xv6.LogCrash
import Xv6.LogSpace
import Xv6.LostWakeup
import Xv6.OpenFiles
import Xv6.PipeFifo
import Xv6.SharedOffset
import Xv6.ShellWords
import Xv6.Sleeplock
import Xv6.SlotOwnership
import Xv6.SysPipe
import Xv6.Teardown
import Xv6.UmallocSbrk
import Xv6.UniqueIds
import Xv6.UthreadStart
import Xv6.UthreadSwitch
import Xv6.VirtioSafety
