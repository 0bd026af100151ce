import PaxosStore.Consensus.Quorum
import PaxosStore.Consensus.Voting
import PaxosStore.Consensus.Servers
import PaxosStore.Certain.Words
import PaxosStore.Certain.EntryRecord
import PaxosStore.Certain.EntryStateMachine
import PaxosStore.Certain.MachineSteps
import PaxosStore.Certain.MachineCalls
import PaxosStore.Certain.Ballots
import PaxosStore.Certain.Acceptors
import PaxosStore.Certain.AcceptorSteps
import PaxosStore.Certain.Agreement
import PaxosStore.Certain.Entries
import PaxosStore.Certain.PreAuth
import PaxosStore.PaxosKv.PInsWrapper
import PaxosStore.PaxosKv.Servers
import PaxosStore.PaxosKv.StepSpecs
import PaxosStore.PaxosKv.Backing
import PaxosStore.PaxosKv.ProposerSteps
import PaxosStore.PaxosKv.ServerSteps
import PaxosStore.PaxosKv.Agreement
import PaxosStore.Certain.DbWorkers
import PaxosStore.Certain.DbCommits
import PaxosStore.Certain.Commands
import PaxosStore.Certain.EntryInfoMng
import PaxosStore.Certain.EntityHelper
import PaxosStore.Certain.EntityMessages
import PaxosStore.Certain.PlogWorker
import PaxosStore.Certain.Moves
import PaxosStore.Certain.HelperSpecs
import PaxosStore.Certain.HelperMoves
import PaxosStore.Certain.HandlerMoves
import PaxosStore.Certain.MessageMoves
import PaxosStore.Certain.EventMoves
import PaxosStore.Certain.PlogOps
import PaxosStore.Certain.HandOver
import PaxosStore.Certain.Records
import PaxosStore.Certain.Durable
import PaxosStore.Certain.DurableRuns
import PaxosStore.Codec.Frames
import PaxosStore.Certain.WriteItemList
import PaxosStore.Certain.MsgChannel
import PaxosStore.Certain.MsgReads
import PaxosStore.Certain.MsgWrites
import PaxosStore.Certain.ArrayTimer
import PaxosStore.Certain.TimerLists
import PaxosStore.Certain.TimerCalls
import PaxosStore.Certain.TimerRuns
import PaxosStore.Certain.LruTable
import PaxosStore.Certain.EntryObjects
import PaxosStore.Certain.AccountSteps
import PaxosStore.Certain.EntryAccounts
import PaxosStore.Certain.UuidMng
import PaxosStore.Certain.LockFreeQueue
import PaxosStore.Certain.QueueSlots
import PaxosStore.Certain.QueueSteps
import PaxosStore.Certain.QueueRuns
import PaxosStore.Certain.Desk
import PaxosStore.Certain.ManagerActs
import PaxosStore.Certain.CatchupActs
import PaxosStore.Certain.HandlerActs
import PaxosStore.Certain.MessageActs
import PaxosStore.Certain.EventActs
import PaxosStore.Certain.NodeRuns
import PaxosStore.Certain.DeskRuns
import PaxosStore.Certain.WaitingMsgs
import PaxosStore.Certain.RoomAsks
import PaxosStore.Certain.DeskChanges
import PaxosStore.Certain.EntryTable
import PaxosStore.Certain.OldChosen
import PaxosStore.Certain.Evictions
import PaxosStore.Certain.Watermarks
import PaxosStore.Certain.WatermarkRuns
import PaxosStore.Certain.CatchupCalls
import PaxosStore.Certain.ClientCmds
import PaxosStore.Certain.ClientRuns
import PaxosStore.Codec.BigEndian
import PaxosStore.Ordered.Scans
import PaxosStore.Ordered.SortedMap
import PaxosStore.Certain.PlogImpl
import PaxosStore.Certain.PlogRuns
import PaxosStore.Certain.PlogAnswers
import PaxosStore.Certain.PlogBatches
import PaxosStore.PaxosKv.Assertions
import PaxosStore.PaxosKv.Orderly
import PaxosStore.PaxosKv.OrderlySteps
import PaxosStore.PaxosKv.CarefulTurns
import PaxosStore.PaxosKv.PLogWrapper
import PaxosStore.PaxosKv.InstanceGrowth
import PaxosStore.PaxosKv.SlimLog
import PaxosStore.PaxosKv.LogRuns
import PaxosStore.PaxosKv.LogSteps
import PaxosStore.PaxosKv.LogGroup
import PaxosStore.PaxosKv.LogMirrors
import PaxosStore.PaxosKv.LogProposals
import PaxosStore.PaxosKv.LogAgreement
import PaxosStore.PaxosKv.RoundNumbers
import PaxosStore.PaxosKv.ProposalNumbers
import PaxosStore.Heap.Linked
import PaxosStore.Codec.Bytes
import PaxosStore.Locks.RwLocks
import PaxosStore.DbComm.HashLock
import PaxosStore.DbComm.HashLockRuns
import PaxosStore.MemKv.MemIdx
import PaxosStore.MemKv.MemIdxLayout
import PaxosStore.MemKv.MemIdxSteps
import PaxosStore.MemKv.MemIdxRuns
import PaxosStore.DbComm.BitCaskRecord
import PaxosStore.DbComm.RawRecords
import PaxosStore.DbComm.SkipError
import PaxosStore.DbComm.LogFormat
import PaxosStore.DbComm.LogReader
import PaxosStore.DbComm.LogWriter
import PaxosStore.DbComm.LogBlocks
import PaxosStore.DbComm.LogSpelling
import PaxosStore.DbComm.LogScan
import PaxosStore.DbComm.LogReads
import PaxosStore.DbComm.LogAnswers
import PaxosStore.DbComm.LogTame
import PaxosStore.DbComm.LogSessions
import PaxosStore.DbComm.LogLayout
import PaxosStore.DbComm.LogDumps
import PaxosStore.DbComm.LogSizes
import PaxosStore.DbComm.LogContents
import PaxosStore.DbComm.LogWrites
import PaxosStore.DbComm.LogBatches
import PaxosStore.DbComm.LogRoundTrip
import PaxosStore.DbComm.LogBuffered
import PaxosStore.DbComm.MetaScan
import PaxosStore.DbComm.RecordWalk
import PaxosStore.DbComm.AttachedReads
import PaxosStore.DbComm.LogRestarts
import PaxosStore.DbComm.IterWriter
import PaxosStore.DbComm.IterRuns
import PaxosStore.PaxosKv.DbImpl
import PaxosStore.PaxosKv.DbRuns
import PaxosStore.PaxosKv.CanWrite
import PaxosStore.PaxosKv.ReadMessages
import PaxosStore.PaxosKv.ChosenIndex
import PaxosStore.PaxosKv.Gets
import PaxosStore.PaxosKv.MsgSvr
import PaxosStore.PaxosKv.MsgSessions
import PaxosStore.MemKv.MemComm
import PaxosStore.MemKv.PMergetor
import PaxosStore.MemKv.DataBlock
import PaxosStore.MemKv.BlockScan
import PaxosStore.MemKv.LoadRuns
import PaxosStore.MemKv.MergeRuns
import PaxosStore.MemKv.Restart
import PaxosStore.MemKv.RecentFiles
import PaxosStore.MemKv.HardMemKvSteps
