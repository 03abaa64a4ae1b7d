import DecodeFabric.Lib.Table
import DecodeFabric.Lib.Run
import DecodeFabric.Lib.Batch
import DecodeFabric.Core
import DecodeFabric.Messages
import DecodeFabric.State
import DecodeFabric.Control
import DecodeFabric.Schedule
import DecodeFabric.Transaction
import DecodeFabric.System
import DecodeFabric.Ops
import DecodeFabric.Effects
import DecodeFabric.Tick
import DecodeFabric.Ledger
import DecodeFabric.History
import DecodeFabric.Grants
import DecodeFabric.Generations
import DecodeFabric.ReceiptChain
import DecodeFabric.Service
import DecodeFabric.Binding
import DecodeFabric.Stale
import DecodeFabric.Authority
import DecodeFabric.Redispatch
import DecodeFabric.Stranded
import DecodeFabric.CpuExecutor
import DecodeFabric.Cluster
import DecodeFabric.Session
import DecodeFabric.OneUse
import DecodeFabric.Advance
import DecodeFabric.Agreement
import DecodeFabric.Snapshot
import DecodeFabric.RoundTrip
import DecodeFabric.Recovered
import DecodeFabric.RecoveryFailure
import DecodeFabric.Restart
import DecodeFabric.Progress
import DecodeFabric.Requeue
import DecodeFabric.Pump
import DecodeFabric.Serving
import DecodeFabric.Lockstep
import DecodeFabric.Accounts
import DecodeFabric.Cycle
import DecodeFabric.Finality
import DecodeFabric.Deeds
import DecodeFabric.Lifetime
import DecodeFabric.Memory
import DecodeFabric.Reservations
import DecodeFabric.Flight
import DecodeFabric.Coverage
import DecodeFabric.WorkerLoad
import DecodeFabric.Endings
import DecodeFabric.Slots
import DecodeFabric.Fleet
import DecodeFabric.Reconstruction
import DecodeFabric.Frames
import DecodeFabric.Protocol
import DecodeFabric.Codecs
import DecodeFabric.Preparation
import DecodeFabric.EventLog
import DecodeFabric.Recount
import DecodeFabric.Coordinator
import DecodeFabric.Replies
import DecodeFabric.CudaExecutor
import DecodeFabric.Backends
import DecodeFabric.Refinement
import DecodeFabric.Rounds
import DecodeFabric.Resolution
import DecodeFabric.Livelock
import DecodeFabric.Completion
import DecodeFabric.Replay
import DecodeFabric.Placement
import DecodeFabric.Headroom
import DecodeFabric.Batching
import DecodeFabric.Keys
import DecodeFabric.Starvation
import DecodeFabric.Lib.Crc
import DecodeFabric.Lib.RingBuffer
import DecodeFabric.Checksum
import DecodeFabric.Persistence
import DecodeFabric.Linkage
import DecodeFabric.Limits
import DecodeFabric.Times
import DecodeFabric.Outcomes
import DecodeFabric.Attempts
import DecodeFabric.Observers
import DecodeFabric.Wire
