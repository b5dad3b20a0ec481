import DxRt.Lib.SortedMap
import DxRt.Lib.Tiling
import DxRt.Lib.Run
import DxRt.Memory.Pool
import DxRt.Memory.Invariant
import DxRt.Memory.Run
import DxRt.Memory.Service
import DxRt.Memory.Ownership
import DxRt.Memory.Isolation
import DxRt.Memory.BackwardFrame
import DxRt.Scheduler.Queue
import DxRt.Scheduler.Service
import DxRt.Scheduler.Spec
import DxRt.Scheduler.Load
import DxRt.Scheduler.Submission
import DxRt.Scheduler.Completion
import DxRt.Scheduler.Progress
import DxRt.Scheduler.Flight
import DxRt.Service.SharedMemory
import DxRt.Service.Handlers
import DxRt.Service.Spec
import DxRt.Service.RunningJob
import DxRt.Service.Departure
import DxRt.Service.Leak
import DxRt.Service.Aliases
import DxRt.Service.Rollback
import DxRt.Service.Bounds
import DxRt.Service.Dispatch
import DxRt.Inference.Graph
import DxRt.Inference.Job
import DxRt.Inference.Order
import DxRt.Inference.Progress
import DxRt.Inference.Slots
import DxRt.Lib.Machine
import DxRt.Lib.Program
import DxRt.Device.Registration
import DxRt.Memory.Canonical
import DxRt.Device.Ledger
import DxRt.Device.ServiceLedger
import DxRt.Device.Balance
import DxRt.Device.Session
import DxRt.Device.Pipeline
import DxRt.Device.LoadSlots
import DxRt.Device.CacheSlices
import DxRt.Lib.Reads
import DxRt.Lib.Ring
import DxRt.Model.Parser
import DxRt.Service.Endpoint
import DxRt.Model.FileBounds
import DxRt.Model.Binaries
import DxRt.Model.OwnBinaries
import DxRt.Lib.Extremes
import DxRt.Model.OutputBuffer
import DxRt.Device.SliceLayout
import DxRt.Service.DmaReplies
import DxRt.Service.ArrayIndices
import DxRt.Service.SharedRelease
import DxRt.Format.Encode
import DxRt.Format.Inputs
import DxRt.Format.Layer
import DxRt.Scheduler.Clear
import DxRt.Service.Recovery
import DxRt.Device.SliceOwners
import DxRt.Lib.Bytes
import DxRt.Service.Cleanup
import DxRt.Service.Packet
import DxRt.Service.Telemetry
import DxRt.Service.Registry
import DxRt.Service.PendingResponses
import DxRt.Monitor.SharedMemory
import DxRt.Monitor.Snapshot
import DxRt.Device.StopGate
import DxRt.Device.RecoveryWindow
import DxRt.Memory.Completeness
import DxRt.Memory.Undo
import DxRt.Lib.Stores
import DxRt.Lib.Blocks
import DxRt.Format.Sizes
import DxRt.Format.Rows
import DxRt.Format.Groups
import DxRt.Format.Writes
import DxRt.Format.Transpose
import DxRt.Format.Shortcut
import DxRt.Format.Outputs
import DxRt.Format.Transposed
import DxRt.Format.Conversions
import DxRt.Scheduler.RoundRobin
import DxRt.Scheduler.Fifo
import DxRt.Inference.Batch
import DxRt.Inference.BatchCounts
import DxRt.Inference.BatchOrder
import DxRt.Inference.BatchIndex
import DxRt.Inference.BatchWait
import DxRt.Inference.AutoSplit
import DxRt.Model.PpuBinary
import DxRt.Service.SequenceIds
import DxRt.Device.HandlerQueue
import DxRt.Device.CpuWorker
import DxRt.Device.Dispatcher
import DxRt.Device.DispatcherEvents
import DxRt.Format.Ppcpu
import DxRt.Inference.TaskBuffers
import DxRt.Inference.OutputLayout
import DxRt.Format.XnnTranspose
import DxRt.Monitor.CircularBuffer
import DxRt.Monitor.UserEvents
import DxRt.Monitor.Profiler
import DxRt.Monitor.ProfilerJobs
import DxRt.Device.DeviceWait
import DxRt.Scheduler.ShortestFirst
