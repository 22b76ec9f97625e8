import System14.Lib.ByteMem
import System14.Lib.Chain
import System14.Lib.Run
import System14.Util.Memutil
import System14.Kernel.State
import System14.Mm.Allocator
import System14.Mm.AllocatorSafety
import System14.Lib.Extent
import System14.Mm.Heap
import System14.Mm.HeapInvariant
import System14.Mm.HeapSearch
import System14.Mm.HeapRun
import System14.Mm.HeapProgress
import System14.Mm.HeapLeak
import System14.Mm.HeapFailure
import System14.Mm.HeapRequest
import System14.Mm.HeapAligned
import System14.Mm.HeapPages
import System14.Mm.HeapSplit
import System14.Mm.HeapReuse
import System14.Mm.HeapUndo
import System14.Lib.BitField
import System14.Lib.Radix
import System14.Mm.Paging
import System14.Mm.PageTables
import System14.Mm.AddressSpace
import System14.Mm.UserAccess
import System14.Mm.Mappings
import System14.Mm.DefaultMappings
import System14.Mm.Isolation
import System14.Mm.ProcessMappings
import System14.Multitasking.Scheduler
import System14.Multitasking.SchedulerInvariant
import System14.Interrupts.Stubs
import System14.Interrupts.Transparency
import System14.Interrupts.TaskTables
import System14.Ramdisk.Tar
import System14.Ramdisk.RoundTrip
import System14.Ramdisk.Walk
import System14.Ramdisk.Register
import System14.Lib.Traced
import System14.Drivers.Apic
import System14.Drivers.MadtWalk
import System14.Drivers.Routing
import System14.Multitasking.Contexts
import System14.Multitasking.Termination
import System14.Multitasking.RoundRobin
import System14.Multitasking.Tasks
import System14.Multitasking.TaskNames
import System14.Drivers.Acpi
import System14.Drivers.Pcie
import System14.Drivers.PcieEnumeration
import System14.Bootstrap.Kmain
import System14.Bootstrap.ElfHeaders
import System14.Util.Numbers
import System14.Util.Print
import System14.Util.Formats
import System14.Lib.TwoRuns
import System14.Mm.TwoStates
import System14.Multitasking.SameTasks
import System14.Mm.RecycledBlocks
import System14.Multitasking.RecycledFrames
import System14.Lib.Lexicographic
import System14.Util.Compare
import System14.Lib.Numeral
import System14.Util.Notation
import System14.Drivers.Redirection
import System14.Multitasking.Starvation
import System14.Lib.Simulation
import System14.Mm.Coexistence
import System14.Mm.Objects
import System14.Mm.ObjectRuns
import System14.Mm.MemoryManager
import System14.Lib.PortIo
import System14.Util.Ioports
import System14.Drivers.Rtc
import System14.Interrupts.Idt
import System14.Interrupts.Delivery
import System14.Util.Serial
import System14.Drivers.Keyboard
import System14.Ramdisk.Startup
import System14.Bootstrap.LoadFile
import System14.Multitasking.Spinlock
import System14.Multitasking.TaskSystem
import System14.Drivers.PcieNames
import System14.Lib.Logged
import System14.Drivers.AcpiLoops
