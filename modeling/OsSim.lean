import OsSim.Lib.BitField
import OsSim.Lib.Transition
import OsSim.Lib.Pool
import OsSim.Lib.StableQueue
import OsSim.Lib.Cover
import OsSim.Lib.Fifo
import OsSim.Lib.Logged
import OsSim.Lib.Scan
import OsSim.Lib.PrefixCode
import OsSim.Lib.Line
import OsSim.Lib.Rounds
import OsSim.Lib.WeakSimulation
import OsSim.Pte
import OsSim.PteHistory
import OsSim.Memphy
import OsSim.AccessModes
import OsSim.Dump
import OsSim.Mm
import OsSim.MmVm
import OsSim.AreaLookup
import OsSim.Overlap
import OsSim.Libmem
import OsSim.AllocPages
import OsSim.Eviction
import OsSim.GrowArea
import OsSim.Frames
import OsSim.Cpu
import OsSim.PageFifo
import OsSim.Fault
import OsSim.MemInv
import OsSim.FailedAlloc
import OsSim.Runs
import OsSim.Rgnode
import OsSim.FlatMemory
import OsSim.Isolation
import OsSim.Exclusivity
import OsSim.Regions
import OsSim.Remap
import OsSim.Exchange
import OsSim.Release
import OsSim.Leaks
import OsSim.Sched
import OsSim.Timer
import OsSim.Os
import OsSim.Drain
import OsSim.Queue
import OsSim.Mlq
import OsSim.Killall
import OsSim.SlotPolicy
import OsSim.TimeSlot
import OsSim.Simulation
import OsSim.KillSteps
import OsSim.Settling
import OsSim.Loader
import OsSim.Written
import OsSim.ProgramText
import OsSim.Arrival
import OsSim.Registers
import OsSim.Ownership
import OsSim.TimeSlice
import OsSim.ExactSlices
import OsSim.Presence
import OsSim.RunningList
import OsSim.Terminated
import OsSim.IdleCpus
import OsSim.Names
import OsSim.NameLoop
import OsSim.Refusal
import OsSim.AccessErrors
import OsSim.SymTable
import OsSim.Representable
import OsSim.FreeList
import OsSim.AllocSize
import OsSim.Realloc
import OsSim.FreeOnce
import OsSim.Threads
import OsSim.Progress
import OsSim.Refinement
import OsSim.Makespan
import OsSim.Ending
import OsSim.Sleeping
import OsSim.Waiting
import OsSim.LifeCycle
import OsSim.AddressSpace
import OsSim.Kernel
import OsSim.Computation
import OsSim.ReadConfig
import OsSim.Boot
