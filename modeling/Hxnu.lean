import Hxnu.Lib.Pool
import Hxnu.Lib.Run
import Hxnu.Lib.Word
import Hxnu.Mm.Frame
import Hxnu.Mm.FramePool
import Hxnu.Lib.Buffer
import Hxnu.Mm.Compress.Codec
import Hxnu.Mm.Compress.RoundTrip
import Hxnu.Lib.Ring
import Hxnu.Mm.Compress.Store
import Hxnu.Mm.Pager
import Hxnu.Mm.PageCache
import Hxnu.Lib.ArrayQueue
import Hxnu.Sched.State
import Hxnu.Sched.Ops
import Hxnu.Sched.Queues
import Hxnu.Sched.Invariant
import Hxnu.Sched.Preserve
import Hxnu.Sched.Boot
import Hxnu.Sched.Runs
import Hxnu.Sched.Safety
import Hxnu.Lib.Words
import Hxnu.Trap.Frame
import Hxnu.Trap.Interleave
import Hxnu.Lib.Tables
import Hxnu.Mm.FrameUse
import Hxnu.Arch.PageTable
import Hxnu.Arch.Translation
import Hxnu.Arch.KernelHalf
import Hxnu.Syscall.Basic
import Hxnu.Syscall.Memory
import Hxnu.Exec.Elf
import Hxnu.Exec.Activation
import Hxnu.Lib.Bytes
import Hxnu.Arch.UserMemory
import Hxnu.Exec.MapSegment
import Hxnu.Exec.UserSpace
import Hxnu.Exec.LoadImage
import Hxnu.Lib.TableCopy
import Hxnu.Mm.CloneSpace
import Hxnu.Lib.RefCount
import Hxnu.Sched.Descriptors
import Hxnu.Fs.Initrd
import Hxnu.Syscall.UserAccess
import Hxnu.Fs.Vfs
import Hxnu.Syscall.Files
import Hxnu.Syscall.FileRefs
import Hxnu.Syscall.FileRuns
import Hxnu.Syscall.FileLifetimes
import Hxnu.Syscall.FdChecks
import Hxnu.Fs.Lookup
import Hxnu.Fs.Cpio
import Hxnu.Syscall.ReadFile
import Hxnu.Lib.SlotRing
import Hxnu.Mm.Heap
import Hxnu.Syscall.Lcl
import Hxnu.Trap.Turns
import Hxnu.Trap.LclRuns
import Hxnu.Exec.ElfChecks
import Hxnu.Sched.Reaping
import Hxnu.Syscall.Wait
import Hxnu.Exec.InitProcess
import Hxnu.Mm.Compress.Grammar
import Hxnu.Mm.Compress.Damage
import Hxnu.Lib.FirstFit
import Hxnu.Mm.NativeRegion
import Hxnu.Mm.PagerCounters
import Hxnu.Sched.ForkMemory
import Hxnu.Lib.Lanes
import Hxnu.Syscall.Children
import Hxnu.Sched.Lists
import Hxnu.Sched.Fifo
import Hxnu.Console.Font
import Hxnu.Console.Framebuffer
import Hxnu.Console.Tty
import Hxnu.Lib.Terminal
import Hxnu.Console.Drawing
import Hxnu.Console.Cells
import Hxnu.Console.InStep
import Hxnu.Lib.TicketRing
import Hxnu.Lib.TicketRuns
import Hxnu.Hsched.Ring
import Hxnu.Hsched.Poll
import Hxnu.Syscall.LclReceive
import Hxnu.Syscall.FailedCalls
import Hxnu.Syscall.UserRanges
import Hxnu.Syscall.Write
import Hxnu.Syscall.Dispatch
import Hxnu.Syscall.PathCalls
import Hxnu.Syscall.ReadStream
import Hxnu.Syscall.Dirents
import Hxnu.Syscall.ListDir
import Hxnu.Exec.Relocation
import Hxnu.Exec.UserStack
import Hxnu.Arch.CriticalSection
import Hxnu.Fs.Preview
import Hxnu.Runtime
import Hxnu.Time
import Hxnu.NeoIo
