import SlobOS.Lib.Runs
import SlobOS.Lib.Tilings
import SlobOS.Lib.Windows
import SlobOS.Config
import SlobOS.Heap
import SlobOS.Proof.HeapScan
import SlobOS.Proof.HeapMark
import SlobOS.Proof.HeapOps
import SlobOS.HeapRuns
import SlobOS.Lib.LinkedLists
import SlobOS.Task
import SlobOS.Proof.TaskLists
import SlobOS.TaskRuns
import SlobOS.Process
import SlobOS.Proof.Processes
import SlobOS.ProcessRuns
import SlobOS.Paging
import SlobOS.Proof.Paging
import SlobOS.Lib.X86
import SlobOS.TaskReturn
import SlobOS.Proof.TaskReturn
import SlobOS.Elf
import SlobOS.ProcessMap
import SlobOS.Proof.ProcessMap
import SlobOS.ElfMaps
import SlobOS.ElfImages
import SlobOS.Lib.Faulting
import SlobOS.Kernel
import SlobOS.Files
import SlobOS.ProcessLoad
import SlobOS.Proof.HeldBlocks
import SlobOS.Proof.Kernel
import SlobOS.Proof.Files
import SlobOS.Proof.ProcessLoad
import SlobOS.LoadFailures
import SlobOS.Proof.Room
import SlobOS.Lib.Rings
import SlobOS.Terminal
import SlobOS.TerminalRuns
import SlobOS.Lib.Pages
import SlobOS.TerminalPages
import SlobOS.KeyboardRuns
import SlobOS.Lib.Splits
import SlobOS.Proof.Blocks
import SlobOS.Paths
import SlobOS.FileLeaks
import SlobOS.Proof.OpenFiles
import SlobOS.FileRuns
import SlobOS.Proof.RootFiles
import SlobOS.Proof.Programs
import SlobOS.Proof.ProcessMemory
import SlobOS.Proof.Allocations
import SlobOS.ProcessLeaks
import SlobOS.Proof.ProgramPages
import SlobOS.KernelPages
import SlobOS.MemoryRuns
import SlobOS.DirectoryEntries
import SlobOS.Disk
import SlobOS.Fat16
import SlobOS.Proof.Fat16
import SlobOS.Proof.FileReads
import SlobOS.FileReads
import SlobOS.Lib.Chains
import SlobOS.FatVolume
import SlobOS.Proof.Streams
import SlobOS.FatTables
import SlobOS.RootDirectories
import SlobOS.FileClusters
import SlobOS.ShortNames
import SlobOS.DirectorySearches
import SlobOS.Terminations
import SlobOS.Lib.Stores
import SlobOS.ProgramArguments
import SlobOS.ZeroedPages
import SlobOS.Lib.CStrings
import SlobOS.Strings
import SlobOS.SystemCommands
import SlobOS.Proof.HeldMemory
import SlobOS.Proof.TaskPages
import SlobOS.Proof.ArgumentLists
import SlobOS.Proof.InjectedArguments
import SlobOS.Proof.LoadedPrograms
import SlobOS.Proof.StartedPrograms
import SlobOS.Proof.Supplies
import SlobOS.SystemRuns
import SlobOS.HeapRequests
import SlobOS.DataArea
import SlobOS.FileSeeks
import SlobOS.Proof.FileCells
import SlobOS.FileBounds
import SlobOS.Proof.SingleBlocks
import SlobOS.FatResolve
import SlobOS.PhysicalPaging
import SlobOS.Proof.PhysicalWords
import SlobOS.PhysicalBuilds
import SlobOS.PhysicalMaps
import SlobOS.Proof.PhysicalChunks
import SlobOS.Proof.PhysicalStrings
import SlobOS.PhysicalRuns
import SlobOS.DiskRequests
import SlobOS.Lib.Tracing
import SlobOS.ElfReads
import SlobOS.BinaryMaps
import SlobOS.PathBuffers
import SlobOS.MallocFailures
import SlobOS.FreeCalls
import SlobOS.ArgumentWalks
import SlobOS.Proof.SlotRequests
import SlobOS.Lib.Orbits
import SlobOS.ArgumentFailures
import SlobOS.Proof.StringCopies
import SlobOS.TaskStrings
import SlobOS.Lib.Ports
import SlobOS.DiskPorts
import SlobOS.Lib.LineEditors
import SlobOS.ReadLines
import SlobOS.EchoedLines
import SlobOS.Proof.ParsedCommands
import SlobOS.TokenHistories
import SlobOS.CommandLeaks
import SlobOS.Lib.Numerals
import SlobOS.NumberTexts
import SlobOS.Printing
import SlobOS.Lib.Descriptors
import SlobOS.GdtTables
import SlobOS.Lib.Lookups
import SlobOS.TableSlots
import SlobOS.Lib.Extremes
import SlobOS.ElfBounds
import SlobOS.Lib.Stretches
import SlobOS.StrtokAccesses
import SlobOS.StringTokens
import SlobOS.Lib.Interrupts
import SlobOS.Idt
import SlobOS.InterruptRoutines
import SlobOS.Proof.InterruptRoutines
import SlobOS.Interrupts
import SlobOS.InterruptRuns
import SlobOS.Keyboard
import SlobOS.TypedLines
import SlobOS.Proof.OwnedBlocks
import SlobOS.ProcessSpaces
import SlobOS.Proof.Bystanders
import SlobOS.Proof.SpaceLoads
import SlobOS.Proof.NewChains
import SlobOS.Proof.NewSpaces
import SlobOS.Proof.SpaceCalls
import SlobOS.Proof.SpaceRequests
import SlobOS.LifeCycles
import SlobOS.ItemRequests
import SlobOS.OpenRequests
