import MsTos.System
import MsTos.Lib.LinkedCycle
import MsTos.RunQueue
import MsTos.Conditions
import MsTos.Cursor
import MsTos.Frame
import MsTos.Lib.Chain
import MsTos.Lib.Hole
import MsTos.Lib.Tally
import MsTos.SemaphoreQueue
import MsTos.Barrier
import MsTos.BarrierModes
import MsTos.BarrierInvariant
import MsTos.PoolSafety
import MsTos.PQueueBag
import MsTos.Deadlines
import MsTos.SleepWindow
import MsTos.TimeSlices
import MsTos.SleepTime
import MsTos.QueueList
import MsTos.View
import MsTos.Effects
import MsTos.WaitQueues
import MsTos.Abstraction
import MsTos.Tick
import MsTos.Refinement
import MsTos.Blocking
import MsTos.MutualExclusion
import MsTos.QuietRuns
import MsTos.Lib.Arrival
import MsTos.CallOrder
import MsTos.Priorities
import MsTos.Join
import MsTos.Primitives
import MsTos.JoinRuns
import MsTos.Boosts
import MsTos.CriticalSections
import MsTos.Balance
import MsTos.TimedWait
import MsTos.Permits
import MsTos.Selection
import MsTos.Handles
import MsTos.LiveThreads
import MsTos.CyclicOrder
import MsTos.Lib.RoundRobin
import MsTos.WeightedTurns
import MsTos.SemaphoreCalls
import MsTos.SemaphoreTrace
import MsTos.Rollback
import MsTos.TimedLock
import MsTos.Slices
import MsTos.Lib.BinaryHeap
import MsTos.PQueueHeap
import MsTos.TimerHeaps
import MsTos.Overdue
import MsTos.Cpu
import MsTos.ContextSwitch
import MsTos.Switches
import MsTos.Lib.Fifo
import MsTos.QueueRuns
import MsTos.QueuePeeks
import MsTos.PQueueRuns
import MsTos.CpuX
import MsTos.Launch
import MsTos.Widening
import MsTos.Deadlock
import MsTos.Lib.Overtaking
import MsTos.Overtaking
import MsTos.Starvation
import MsTos.Formats
import MsTos.Clients
import MsTos.BarrierClient
import MsTos.Lib.ListFamily
import MsTos.Lists
import MsTos.Lib.ChainedFamily
import MsTos.Slists
import MsTos.Pools
import MsTos.Printers
import MsTos.Freeze
import MsTos.WakeTick
import MsTos.Expiring
