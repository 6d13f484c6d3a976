import Finastate.Library.AssocMap
import Finastate.Library.Result
import Finastate.Library.SortedMap
import Finastate.Library.Weights
import Finastate.Library.VoteLog
import Finastate.Library.RoundRobin
import Finastate.Library.Overlay
import Finastate.Library.Ledger
import Finastate.Primitives.Types
import Finastate.Primitives.Codec
import Finastate.Consensus.Basic
import Finastate.Consensus.Verifier
import Finastate.Consensus.Support
import Finastate.Consensus.AuthorityProof
import Finastate.Coordinator.Verifier
import Finastate.Hotstuff.Protocol
import Finastate.Hotstuff.Certificate
import Finastate.Hotstuff.Storage
import Finastate.Hotstuff.Verifier
import Finastate.Hotstuff.Stream
import Finastate.Hotstuff.State
import Finastate.Hotstuff.VerifyProof
import Finastate.Hotstuff.Acts
import Finastate.Hotstuff.Refinement
import Finastate.Hotstuff.Run
import Finastate.Hotstuff.Views
import Finastate.Hotstuff.Votes
import Finastate.Hotstuff.Network
import Finastate.Hotstuff.Ballots
import Finastate.Hotstuff.NodeInvariant
import Finastate.Hotstuff.Agreement
import Finastate.Hotstuff.Persistence
import Finastate.Hotstuff.Frame
import Finastate.Hotstuff.Admission
import Finastate.Hotstuff.Leaders
import Finastate.Hotstuff.Panics
import Finastate.Raft.Protocol
import Finastate.Raft.Storage
import Finastate.Raft.Verifier
import Finastate.Raft.Stream
import Finastate.Raft.State
import Finastate.Executor.Context
import Finastate.Executor.Executor
import Finastate.Executor.State
import Finastate.Executor.Program
import Finastate.Executor.Batch
import Finastate.Executor.Validate
import Finastate.Executor.Covered
import Finastate.Executor.Failed
import Finastate.Chain.Database
import Finastate.Chain.Errors
import Finastate.Chain.Backend
import Finastate.Chain.Genesis
import Finastate.Chain.Verify
import Finastate.Chain.Body
import Finastate.Chain.Execute
import Finastate.Chain.Run
import Finastate.Chain.Chained
import Finastate.Chain.Replay
import Finastate.Chain.Linkage
import Finastate.Chain.Executed
import Finastate.Chain.Deferred
import Finastate.Chain.SameChain
import Finastate.Chain.Verdict
import Finastate.Module.Balance
import Finastate.Vm.Basic
import Finastate.Contract.Storage
import Finastate.Contract.Context
import Finastate.Contract.Import
import Finastate.Contract.Effects
import Finastate.Contract.Machine
import Finastate.Contract.Module
import Finastate.Contract.Conservation
import Finastate.Contract.Isolation
import Finastate.Contract.View
import Finastate.Contract.Alike
import Finastate.Module.Methods
import Finastate.Contract.Validate
import Finastate.Chain.Contracts
import Finastate.Chain.Lag
import Finastate.Contract.Faults
import Finastate.Chain.Executable
import Finastate.Chain.Prepare
import Finastate.Chain.Honest
import Finastate.Chain.Engines
import Finastate.Chain.Cache
import Finastate.Raft.Acts
import Finastate.Raft.Refinement
import Finastate.Raft.Steps
import Finastate.Raft.Run
import Finastate.Raft.Votes
import Finastate.Raft.Logs
import Finastate.Raft.CommitIndex
import Finastate.Raft.Network
import Finastate.Raft.Elections
import Finastate.Library.Runs
import Finastate.Sync.ChainSync
import Finastate.Sync.SeenGroups
import Finastate.Sync.Stranded
import Finastate.Sync.Window
import Finastate.Sync.Latency
import Finastate.Executor.Storage
import Finastate.Library.Ballot
import Finastate.Module.Governance
import Finastate.Module.Meta
import Finastate.Contract.Governance
import Finastate.Library.Fronts
import Finastate.Module.Keys
import Finastate.Hotstuff.Quorum
import Finastate.Module.Council
import Finastate.Module.Seat
import Finastate.Module.Office
import Finastate.Contract.Written
import Finastate.Module.History
import Finastate.Module.Governed
import Finastate.Module.Lawful
import Finastate.Library.LinkedMap
import Finastate.PeerManager.Basic
import Finastate.PeerManager.Moves
import Finastate.PeerManager.Bookkeeping
import Finastate.PeerManager.Reserved
import Finastate.PeerManager.Banned
import Finastate.Network.Protocol
import Finastate.Network.Sessions
import Finastate.Network.Connections
import Finastate.Consensus.Validators
import Finastate.TxPool.Pool
import Finastate.TxPool.Consistency
import Finastate.TxPool.Capacity
import Finastate.Primitives.EnumCodec
import Finastate.Network.Wire
import Finastate.StateDb.Basic
import Finastate.StateDb.History
import Finastate.Contract.ErrorText
import Finastate.Coordinator.Execution
import Finastate.Hotstuff.Soundness
import Finastate.Hotstuff.Collectors
import Finastate.Hotstuff.HighQc
import Finastate.Hotstuff.Slot
import Finastate.Hotstuff.Decide
import Finastate.Raft.Committed
import Finastate.Contract.LinkedMachine
import Finastate.Contract.HostCalls
import Finastate.Vm.Memory
import Finastate.Library.Reached
import Finastate.Raft.Majority
import Finastate.Library.Aggregate
import Finastate.Module.Aggregate
import Finastate.Module.Versions
import Finastate.Module.Upgrades
import Finastate.Contract.Transactional
import Finastate.Network.Handler
import Finastate.Network.Link
import Finastate.Sync.Peers
import Finastate.Contract.Json
import Finastate.Contract.Sdk
import Finastate.Contract.SdkHost
import Finastate.Contract.Token
import Finastate.Contract.TokenBatches
