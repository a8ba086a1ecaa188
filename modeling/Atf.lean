import Atf.Lib.Lua
import Atf.Lib.Splitter
import Atf.Protocol
import Atf.ParseChunks
import Atf.Fragments
import Atf.ComposeFrames
import Atf.RoundTrip
import Atf.Lib.Interleave
import Atf.Reassembly
import Atf.Lib.Run
import Atf.MessageDispatcher
import Atf.DispatchCredit
import Atf.DispatchFifo
import Atf.DispatchProgress
import Atf.Expectations
import Atf.Verdict
import Atf.EventDispatcher
import Atf.MobileSession
import Atf.Nack
import Atf.TestBase
import Atf.CrashReport
import Atf.CompareValues
import Atf.Embedding
import Atf.SchemaValidation
import Atf.RpcService
import Atf.SchemaChecks
import Atf.ParseRaises
import Atf.SecuredSessions
import Atf.SecurityRegistry
import Atf.Lib.RecordLayer
import Atf.SecurityManager
import Atf.DecryptionStatus
import Atf.FileWindow
import Atf.FileTransfer
import Atf.BrokerOrder
import Atf.HmiAdapterClient
import Atf.HmiSignals
import Atf.HmiDelivery
import Atf.Lib.LockFile
import Atf.Lib.TextLines
import Atf.Parallels
import Atf.ParallelPops
import Atf.ParallelRun
import Atf.Actions
import Atf.VerdictRun
import Atf.ExpectationsList
import Atf.EventLeaks
import Atf.CriticalSteps
import Atf.SchemaConforms
import Atf.ArrayChecks
import Atf.SchemaTypes
import Atf.SchemaRaises
import Atf.SchemaBounds
import Atf.ConfigFiles
import Atf.ConfigRestore
import Atf.FileBackup
import Atf.CorrelationIds
import Atf.ResponseMatch
import Atf.WireIds
import Atf.FrameSize
import Atf.HmiResponse
import Atf.RemoteFiles
import Atf.StreamTables
import Atf.ComposePlain
import Atf.SendAgain
import Atf.StreamPace
import Atf.HmiStream
import Atf.Lib.PatternMatch
import Atf.ParamLines
import Atf.ParamKept
import Atf.Lib.FileTree
import Atf.FolderDelete
import Atf.FolderInside
import Atf.FolderOutside
import Atf.HeartbeatStop
import Atf.HeaderCodec
import Atf.SignatureTypes
import Atf.SignalEmission
import Atf.Lib.TableHeap
import Atf.ConfigBuilder
import Atf.Lib.Entries
import Atf.DispatcherPools
import Atf.DispatcherRegistry
import Atf.DispatcherRun
import Atf.DispatcherValidate
import Atf.HmiRequests
import Atf.InitHmi
import Atf.MobileWire
import Atf.Lib.Shell
import Atf.Optparse
import Atf.LaunchOptions
import Atf.LaunchConfig
import Atf.StartScript
