import SeekingOs.Thread.Consistency
import SeekingOs.Userprog.Reaping
import SeekingOs.Userprog.Wakeup
import SeekingOs.Fs.NoDangling
import SeekingOs.Fs.Inode
import SeekingOs.Fs.CrossLinks
import SeekingOs.Fs.DirMap
import SeekingOs.Fs.FormatRuns
import SeekingOs.Fs.OneWriter
import SeekingOs.Fs.WholePaths
import SeekingOs.Fs.InodeHeapRuns
import SeekingOs.Fs.OpenCountsRuns
import SeekingOs.Thread.LockExclusion
import SeekingOs.Kernel.PageRuns
import SeekingOs.Userprog.ExitLeak
import SeekingOs.Device.IoQueueRuns
import SeekingOs.Fs.Offsets
import SeekingOs.Fs.DirAccounts
import SeekingOs.Fs.DirRuns
import SeekingOs.Fs.InodeCache
import SeekingOs.Fs.OpenLeaks
import SeekingOs.Fs.NoDebug
import SeekingOs.Fs.FailedWrite
import SeekingOs.Fs.Rollback
import SeekingOs.Lib.Plans
import SeekingOs.Userprog.Exec
import SeekingOs.Userprog.ExecRange
import SeekingOs.Shell.Pipe
import SeekingOs.Fs.DescriptorChecks
import SeekingOs.Fs.DirRead
import SeekingOs.Fs.PathCalls
import SeekingOs.Fs.DirStreams
import SeekingOs.Shell.PipeCounts
import SeekingOs.Userprog.ExecFailed
import SeekingOs.Kernel.TableWords
import SeekingOs.Kernel.Malloc
import SeekingOs.Kernel.Exhausted
import SeekingOs.Fs.Getcwd
import SeekingOs.Lib.Words
import SeekingOs.Shell.CmdParse
import SeekingOs.Device.Transfers
import SeekingOs.Fs.InodeTable
import SeekingOs.Kernel.Strings
import SeekingOs.Userprog.TaskNames
import SeekingOs.Kernel.PoolInit
import SeekingOs.Device.Partitions
import SeekingOs.Device.PartitionScan
import SeekingOs.Device.PartitionInit
import SeekingOs.Fs.FilesysInit
import SeekingOs.Kernel.SelfMap
import SeekingOs.Userprog.LoadedImage
import SeekingOs.Kernel.HeapPages
import SeekingOs.Kernel.HeapBlocks
import SeekingOs.Kernel.Heap
import SeekingOs.Kernel.HeapRuns
import SeekingOs.Lib.Linked
import SeekingOs.Userprog.ForkedHeaps
import SeekingOs.Userprog.ForkedLists
import SeekingOs.Userprog.ForkedCalls
import SeekingOs.Userprog.ForkedRuns
import SeekingOs.Lib.Loop
import SeekingOs.Kernel.BitmapSearch
import SeekingOs.Boot.Loader
import SeekingOs.Kernel.Print
import SeekingOs.Kernel.Lists
import SeekingOs.Device.Keyboard
import SeekingOs.Shell.WashPath
import SeekingOs.Kernel.Stdio
import SeekingOs.Shell.ReadLine
import SeekingOs.Shell.MyShell
import SeekingOs.Device.Console
import SeekingOs.Device.ChannelRuns
import SeekingOs.Fs.Orderly
import SeekingOs.Fs.Mounting
import SeekingOs.Lib.Rooted
