import MyShell.Lib.BlockProgram
import MyShell.Lib.ObjectHeap
import MyShell.FS.Sector
import MyShell.FS.Cache
import MyShell.FS.Bitmap
import MyShell.FS.State
import MyShell.FS.Inode
import MyShell.Lib.PointerForest
import MyShell.FS.BlockMap
import MyShell.FS.Transfer
import MyShell.FS.Allocate
import MyShell.FS.Reserve
import MyShell.FS.Layout
import MyShell.FS.Growth
import MyShell.FS.Contents
import MyShell.FS.File
import MyShell.FS.Directory
import MyShell.FS.Filesys
import MyShell.FS.Handles
import MyShell.FS.Release
import MyShell.FS.Creation
import MyShell.FS.Entries
import MyShell.FS.Root
import MyShell.FS.Removal
import MyShell.FS.Stages
import MyShell.FS.Create
import MyShell.FS.Remove
import MyShell.FS.Access
import MyShell.FS.Mounted
import MyShell.FS.Format
import MyShell.FS.Mount
import MyShell.FS.Session
import MyShell.FS.Remount
import MyShell.FS.Ownership
import MyShell.FS.Undo
import MyShell.FS.Extension
import MyShell.FS.Exhaustion
import MyShell.FS.DataSectors
import MyShell.FS.OpenFiles
import MyShell.FS.FailedCreate
import MyShell.FS.Eviction
import MyShell.Lib.TextFile
import MyShell.Lib.Interleaving
import MyShell.Paging.FrameStore
import MyShell.Paging.PageLoad
import MyShell.Paging.Frames
import MyShell.Paging.Kernel
import MyShell.Paging.Recency
import MyShell.Paging.Resume
import MyShell.FS.Shell
import MyShell.FS.Opening
import MyShell.FS.Serving
import MyShell.FS.Commands
import MyShell.FS.Positions
import MyShell.FS.Append
import MyShell.FS.Copy
import MyShell.FS.NewDirectory
import MyShell.Lib.SlotTable
import MyShell.FS.DirectoryMap
import MyShell.FS.FirstFit
import MyShell.FS.Rebuild
import MyShell.FS.Fragmentation
import MyShell.FS.Names
import MyShell.Lib.Simulation
import MyShell.FS.FileStore
import MyShell.FS.OpenTable
import MyShell.FS.OpenEntries
import MyShell.FS.Desk
import MyShell.FS.FindFile
import MyShell.FS.Partition
import MyShell.Paging.OneLiner
import MyShell.Paging.Process
import MyShell.Paging.Quantum
import MyShell.Paging.Scheduler
import MyShell.Demand.Script
import MyShell.FS.BitScan
import MyShell.Lib.Tokens
import MyShell.FS.PathSplit
import MyShell.FS.Addressing
import MyShell.Lib.DoublyLinked
import MyShell.Demand.LinkedList
import MyShell.Shell.VariableStore
import MyShell.Shell.Conditional
import MyShell.Shell.RunScript
import MyShell.Lib.RecencyList
import MyShell.Demand.Paging
import MyShell.Demand.Kernel
import MyShell.Demand.Progress
import MyShell.Demand.Turn
import MyShell.Demand.History
import MyShell.Demand.Residence
import MyShell.Demand.Interpreter
import MyShell.Demand.Fault
import MyShell.Demand.RoundRobin
import MyShell.Demand.Admission
import MyShell.Demand.Runs
import MyShell.Demand.Cleanup
