import MockOS.Lib.StoreProgram
import MockOS.Lib.Iteration
import MockOS.Fs.Sector
import MockOS.Fs.Cache
import MockOS.Fs.CacheTransparency
import MockOS.Proc.ShellMemory
import MockOS.Proc.Pcb
import MockOS.Proc.Scheduler
import MockOS.Proc.ScriptFiles
import MockOS.Proc.Frames
import MockOS.Proc.Interpreter
import MockOS.Proc.Loading
import MockOS.Proc.PageFaults
import MockOS.Proc.ScriptRuns
import MockOS.A2.Kernel
import MockOS.A2.PageTables
import MockOS.Device.Partition
import MockOS.Device.PartitionTables
import MockOS.Device.Translation
import MockOS.Fs.Allocation
import MockOS.Fs.BitmapElems
import MockOS.Fs.BlockAccounting
import MockOS.Fs.CommandFrames
import MockOS.Fs.Defragment
import MockOS.Proc.CleanUp
import MockOS.Proc.CommandChains
import MockOS.Proc.MemorySize
import MockOS.Proc.NestedRuns
import MockOS.Proc.LineReturns
import MockOS.Fs.Atomicity
import MockOS.Fs.CopyIn
import MockOS.Fs.CopyInBytes
import MockOS.Fs.DirScans
import MockOS.Fs.FileVisits
import MockOS.Fs.FilePositions
import MockOS.Fs.RoomyRuns
import MockOS.Fs.FragmentationCounts
import MockOS.Fs.Handles
import MockOS.Fs.HiddenTails
import MockOS.Fs.Lifetimes
import MockOS.Fs.ListSystem
import MockOS.A2.Sessions
import MockOS.Fs.Restart
import MockOS.Fs.StrayWrites
import MockOS.Fs.ShellWrites
import MockOS.Fs.WriteLengths
import MockOS.Proc.LineCounts
import MockOS.A2.Aging
import MockOS.A2.ParseRuns
import MockOS.A2.VariableStore
import MockOS.Lib.Recency
import MockOS.Proc.BackingStore
import MockOS.Proc.LineArrays
import MockOS.Proc.LruOrder
import MockOS.Proc.VariableMap
import MockOS.Proc.KernelLists
import MockOS.Proc.Console
