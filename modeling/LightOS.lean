import LightOS.Cache.Bookkeeping
import LightOS.Cache.Sequential
import LightOS.Console.Bounds
import LightOS.Console.Lines
import LightOS.Console.Sequences
import LightOS.Device.BlockFiles
import LightOS.Device.Elevator
import LightOS.Exec.Layout
import LightOS.Files.Counts
import LightOS.Files.Duplicates
import LightOS.Format.ReadBack
import LightOS.Fs.Accounting
import LightOS.Fs.Insertion
import LightOS.Fs.Matching
import LightOS.Fs.Owing
import LightOS.Fs.Resolution
import LightOS.Fs.Truncation
import LightOS.Fs.Unscanned
import LightOS.Fs.WorkingDirectory
import LightOS.Fs.WriteLimit
import LightOS.Heap.Termination
import LightOS.InodeTable.Initialised
import LightOS.Kernel.FifoQueue
import LightOS.Kernel.FirstFit
import LightOS.Kernel.ListCalls
import LightOS.Locks.Mutex
import LightOS.Locks.ReadersWriter
import LightOS.Pipe.Stream
import LightOS.Sched.Exit
import LightOS.Sched.RoundRobin
import LightOS.Sched.TimerQueue
import LightOS.Sched.Waiting
import LightOS.Shell.Splitting
import LightOS.Signal.Kill
import LightOS.Signal.RoundTrip
import LightOS.Signal.Sessions
import LightOS.Terminal.Line
import LightOS.Time.LocalTime
import LightOS.UserMemory.Break
import LightOS.UserMemory.CopyOnWrite
import LightOS.UserMemory.Images
import LightOS.UserMemory.Leaks
import LightOS.UserMemory.Mappings
import LightOS.UserMemory.RegionCalls
import LightOS.UserMemory.Storage
