import Tyleros.Basic
import Tyleros.Lib.Machine
import Tyleros.Lib.Object
import Tyleros.Lib.Ownership
import Tyleros.Lib.RadixTree
import Tyleros.Lib.PagedMemory
import Tyleros.Lib.Overlay
import Tyleros.Lib.AddressSpace
import Tyleros.Crc32
import Tyleros.MemoryMap
import Tyleros.MemoryMap.Largest
import Tyleros.MemoryMap.Sort
import Tyleros.Interrupts
import Tyleros.Timing
import Tyleros.Dma
import Tyleros.Dwarf
import Tyleros.LowMemory
import Tyleros.Mutex.Model
import Tyleros.Mutex.Guards
import Tyleros.Keyboard.Model
import Tyleros.Keyboard.Delivery
import Tyleros.Keyboard.Subscribers
import Tyleros.Adt.RingBuffer
import Tyleros.Adt.Iteration
import Tyleros.Adt.Optional
import Tyleros.Adt.HashMap
import Tyleros.Scheduler.Model
import Tyleros.Scheduler.Runs
import Tyleros.Scheduler.Stacks
import Tyleros.Scheduler.AllocLock
import Tyleros.Scheduler.Contexts
import Tyleros.Scheduler.FpuState
import Tyleros.Scheduler.Search
import Tyleros.Scheduler.Ticks
import Tyleros.Scheduler.Turns
import Tyleros.Vma.Model
import Tyleros.Vma.FreeList
import Tyleros.Vma.Runs
import Tyleros.Vma.Startup
import Tyleros.Paging.Model
import Tyleros.Paging.Tree
import Tyleros.Paging.Translation
import Tyleros.Paging.Runs
import Tyleros.Paging.Ranges
import Tyleros.Paging.Protection
import Tyleros.Paging.Startup
import Tyleros.Paging.Supply
import Tyleros.Paging.RoundTrip
import Tyleros.Paging.PageByPage
import Tyleros.Paging.Dump
import Tyleros.Paging.Translated
import Tyleros.Paging.DumpRuns
import Tyleros.Paging.Demand
import Tyleros.Paging.PartialMap
import Tyleros.Pma.Bitmap
import Tyleros.Pma.Search
import Tyleros.Pma.FindFirst
import Tyleros.Pma.FindRun
import Tyleros.Pma.Runs
import Tyleros.Pma.Region
import Tyleros.Pma.Startup
import Tyleros.Fat.Model
import Tyleros.Fat.ReadFile
import Tyleros.Fat.ClusterLoop
import Tyleros.Fat.Layout
import Tyleros.Fat.Paths
import Tyleros.Fat.Lookup
import Tyleros.Fat.ShortNames
import Tyleros.Boot.Loader
import Tyleros.Boot.Agreement
import Tyleros.Boot.Sectors
import Tyleros.Boot.PageAllocator
import Tyleros.Boot.Paging
import Tyleros.Boot.PageTree
import Tyleros.Boot.Mapping
import Tyleros.Boot.MappedRanges
import Tyleros.Boot.ElfLoader
import Tyleros.Boot.PagedElf
import Tyleros.Boot.KernelImage
import Tyleros.Boot.LongMode
import Tyleros.Boot.KernelElf
import Tyleros.Boot.Bios
import Tyleros.Boot.Stage2
import Tyleros.Boot.Stage1
import Tyleros.Alloc.Model
import Tyleros.Alloc.Nodes
import Tyleros.Alloc.Layout
import Tyleros.Alloc.Steps
import Tyleros.Alloc.Blocks
import Tyleros.Alloc.Kernel
import Tyleros.Alloc.Runs
import Tyleros.Alloc.Records
import Tyleros.Alloc.Alignment
import Tyleros.Libc.String
import Tyleros.Libc.Stdio
import Tyleros.Libc.Pieces
import Tyleros.Libc.Formatting
import Tyleros.Libc.Truncation
import Tyleros.Libc.Bounds
import Tyleros.Libc.SignedNumbers
import Tyleros.Libc.Scan
import Tyleros.Libc.Printf
import Tyleros.Libc.Search
import Tyleros.Libc.Compare
import Tyleros.Libc.Concat
import Tyleros.Vga
import Tyleros.Vga.Bounds
import Tyleros.Minishell
import Tyleros.Keyboard.Terminal
import Tyleros.Kernel.Model
import Tyleros.Kernel.Protection
import Tyleros.Kernel.Startup
import Tyleros.Kernel.FreePages
import Tyleros.Pic.Driver
import Tyleros.Pic.Model
import Tyleros.Pic.Acknowledge
import Tyleros.Floppy.Driver
import Tyleros.Floppy.Controller
import Tyleros.Floppy.Transfer
import Tyleros.Fat.Device
import Tyleros.Gdt
import Tyleros.Scheduler.UserTasks
