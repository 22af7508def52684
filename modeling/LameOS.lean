import LameOS.Boot.Loader
import LameOS.Config
import LameOS.Disk.Disk
import LameOS.Disk.Streamer
import LameOS.Disk.StreamerDrive
import LameOS.Fs.Cluster
import LameOS.Fs.ClusterRead
import LameOS.Fs.Descriptors
import LameOS.Fs.DirectoryEntry
import LameOS.Fs.Fat16
import LameOS.Fs.File
import LameOS.Fs.FileOwned
import LameOS.Fs.FileRead
import LameOS.Fs.FileThere
import LameOS.Fs.FollowedRead
import LameOS.Fs.FullTable
import LameOS.Fs.Layout
import LameOS.Fs.LoadDirectory
import LameOS.Fs.Mount
import LameOS.Fs.OpenFiles
import LameOS.Fs.Opens
import LameOS.Fs.Owned
import LameOS.Fs.ParsedPath
import LameOS.Fs.PathParser
import LameOS.Fs.Position
import LameOS.Fs.ReadBounds
import LameOS.Fs.RecordName
import LameOS.Fs.ResolveFailure
import LameOS.Fs.RootDirectory
import LameOS.Fs.RootScan
import LameOS.Fs.Seek
import LameOS.Fs.StaleNumbers
import LameOS.Fs.Terminates
import LameOS.Fs.VolumeThere
import LameOS.Gdt
import LameOS.Idt.Idt
import LameOS.Idt.Interrupts
import LameOS.Idt.UserRun
import LameOS.Isr80h.CopiedString
import LameOS.Isr80h.Handler
import LameOS.Isr80h.HandlerSpec
import LameOS.Isr80h.Isolation
import LameOS.Isr80h.PrintedBuffer
import LameOS.Isr80h.PrintedText
import LameOS.Isr80h.Wrapper
import LameOS.Lib.Bytes
import LameOS.Lib.Code
import LameOS.Lib.Drive
import LameOS.Lib.Exec
import LameOS.Lib.Interval
import LameOS.Lib.Run
import LameOS.Lib.Split
import LameOS.Lib.Turns
import LameOS.Memory.FirstFit
import LameOS.Memory.Headroom
import LameOS.Memory.Heap
import LameOS.Memory.HeapLaws
import LameOS.Memory.HeapRun
import LameOS.Memory.HeapSpec
import LameOS.Memory.Kheap
import LameOS.Memory.Owns
import LameOS.Memory.Paging
import LameOS.Memory.PagingLaws
import LameOS.Memory.PagingSpec
import LameOS.Memory.Runs
import LameOS.StringLaws
import LameOS.Strings
import LameOS.Task.FirstLoad
import LameOS.Task.FirstProcess
import LameOS.Task.FirstRun
import LameOS.Task.KernelPages
import LameOS.Task.LoadSucceeds
import LameOS.Task.Process
import LameOS.Task.ProcessFailure
import LameOS.Task.ProcessMap
import LameOS.Task.ProcessSpec
import LameOS.Task.ProcessTable
import LameOS.Task.Return
import LameOS.Task.Rollback
import LameOS.Task.RoundRobin
import LameOS.Task.Task
import LameOS.Task.TaskRun
import LameOS.Task.TaskSpec
import LameOS.Terminal
