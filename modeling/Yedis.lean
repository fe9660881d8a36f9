import Yedis.Decimal
import Yedis.Blocks
import Yedis.Window
import Yedis.Buffer
import Yedis.ReplyBuffer
import Yedis.IntToken
import Yedis.Parser
import Yedis.ParserSpec
import Yedis.Grammar
import Yedis.FreshParse
import Yedis.Encoding
import Yedis.Gathered
import Yedis.PartialRequest
import Yedis.LeftBehind
import Yedis.ParserResume
import Yedis.ParserCuts
import Yedis.ParserSafety
import Yedis.ParserSoundness
import Yedis.ResetParser
import Yedis.Session
import Yedis.Arguments
import Yedis.Strtol
import Yedis.LongText
import Yedis.Store
import Yedis.Exec
import Yedis.Formate
import Yedis.Handlers
import Yedis.HandlerSpec
import Yedis.ContainerSpec
import Yedis.Command
import Yedis.KeySpace
import Yedis.TwoRuns
import Yedis.Local
import Yedis.Commute
import Yedis.Fifo
import Yedis.Deque
import Yedis.NoEmpty
import Yedis.Reply
import Yedis.WrongType
import Yedis.Runs
import Yedis.DequeRuns
import Yedis.StringFidelity
import Yedis.SetnxWinner
import Yedis.WriteBack
import Yedis.TcpConnection
import Yedis.Server
import Yedis.Pairing
import Yedis.Unfinished
import Yedis.EpollPoller
import Yedis.Bookkeeping
import Yedis.Interest
import Yedis.ConnectionTable
import Yedis.LiveConnections
import Yedis.ConnectionNames
import Yedis.SortedSetMirror
import Yedis.Family
import Yedis.ReplyFifo
import Yedis.BufferDeque
import Yedis.Locks
import Yedis.TaskQueue
import Yedis.LoopFunctors
import Yedis.LogRolling
import Yedis.LogShutdown
import Yedis.Ownership
import Yedis.TaggedObject
import Yedis.ObjectOwnership
import Yedis.ListRange
import Yedis.LastWrite
import Yedis.SetRuns
import Yedis.HexDump
import Yedis.Databases
import Yedis.RandomMember
import Yedis.ParserGrowth
import Yedis.PrefixCode
import Yedis.ReplyStream
import Yedis.Components
import Yedis.Interleaving
import Yedis.HashRuns
import Yedis.Clients
import Yedis.LoopThreads
import Yedis.RoundRobin
import Yedis.LoopPool
import Yedis.SelectPoller
import Yedis.TwoPollers
import Yedis.ByteOrder
import Yedis.BufferValues
import Yedis.LogPipeline
import Yedis.LoopEffects
import Yedis.Program
import Yedis.Progress
import Yedis.ThreadedProgram
import Yedis.Acceptor
import Yedis.SocketText
import Yedis.EpollWait
