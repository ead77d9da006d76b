import NoIdeaOS.Lib.Fallible
import NoIdeaOS.Lib.Links
import NoIdeaOS.Lib.TextRows
import NoIdeaOS.Lib.Simulation
import NoIdeaOS.Collections.IncrementingPool
import NoIdeaOS.Collections.DynamicBitmap
import NoIdeaOS.Collections.Static
import NoIdeaOS.Processes.Basic
import NoIdeaOS.Processes.Scheduler
import NoIdeaOS.Processes.Manager
import NoIdeaOS.Processes.Frame
import NoIdeaOS.Processes.Invariants
import NoIdeaOS.Processes.Operations
import NoIdeaOS.Processes.Slots
import NoIdeaOS.Processes.StackPointers
import NoIdeaOS.Processes.Panics
import NoIdeaOS.Processes.SchedulingRules
import NoIdeaOS.Processes.Table
import NoIdeaOS.Processes.Safety
import NoIdeaOS.Sync.Semaphore
import NoIdeaOS.Sync.Ledger
import NoIdeaOS.Interrupts.Timer
import NoIdeaOS.Interrupts.Entry
import NoIdeaOS.Memory.BootFrameAllocator
import NoIdeaOS.Memory.FixedSizeBlock
import NoIdeaOS.Memory.HeapBlocks
import NoIdeaOS.Memory.HeapInvariant
import NoIdeaOS.Memory.HeapRuns
import NoIdeaOS.Memory.Stacks
import NoIdeaOS.Memory.StackRuns
import NoIdeaOS.Memory.KernelHeap
import NoIdeaOS.Vga.Writer
import NoIdeaOS.Vga.Render
import NoIdeaOS.Ipc.Fifo
import NoIdeaOS.Ipc.FifoConcurrent
import NoIdeaOS.Kernel.ProcessStacks
