import Ltf.Base.CString
import Ltf.Base.Json
import Ltf.Base.Assoc
import Ltf.Base.Steps
import Ltf.Base.Stateful
import Ltf.Base.Monitor
import Ltf.Base.Lifo
import Ltf.Base.Descriptors
import Ltf.Base.Forest
import Ltf.Base.Orbit
import Ltf.Base.Removal
import Ltf.Base.Selection
import Ltf.Base.Ledger
import Ltf.Base.Store
import Ltf.Base.Repeats
import Ltf.Base.Blocks
import Ltf.Base.Binary64
import Ltf.Base.Paths
import Ltf.Base.DirTree
import Ltf.LogLevel
import Ltf.Lua
import Ltf.State
import Ltf.LtfModule
import Ltf.Hooks
import Ltf.StateJson
import Ltf.Test
import Ltf.Proc
import Ltf.ProcRun
import Ltf.ProcTimed
import Ltf.KeywordStatus
import Ltf.LuaHooks
import Ltf.CmdParser
import Ltf.TestScenarios
import Ltf.OptionStrings
import Ltf.LuaArgs
import Ltf.LuaStack
import Ltf.LuaJson
import Ltf.TestCase
import Ltf.Vars
import Ltf.Secrets
import Ltf.Ssh
import Ltf.Files
import Ltf.TestLogs
import Ltf.ProjectParser
import Ltf.Target
import Ltf.Http
import Ltf.LogsInfo
import Ltf.FileTree
import Ltf.LtfInit
import Ltf.Da
import Ltf.ProcLua
import Ltf.Sftp
import Ltf.Util
import Ltf.SftpPaths
import Ltf.Webdriver
import Ltf.LineCache
import Ltf.TargetProcess
import Ltf.LtfLog
import Ltf.ReadUntil
import Ltf.Strings
import Ltf.Version
import Ltf.Picotui
import Ltf.RunProtocol
import Ltf.HookContext
import Ltf.Serial
import Ltf.LtfTest
import Ltf.LuaWalk
import Ltf.VarAccess
import Ltf.Proofs.LuaTraversal
import Ltf.Proofs.LuaLayout
import Ltf.Proofs.LuaToJson
import Ltf.Proofs.LuaTables
import Ltf.Proofs.LuaRoundTrip
import Ltf.Proofs.LuaSlots
import Ltf.Proofs.LuaRoom
import Ltf.Proofs.ProcDescriptors
import Ltf.Proofs.ProcRun
import Ltf.Proofs.KeywordForest
import Ltf.Proofs.KeywordStack
import Ltf.Proofs.RunnerSteps
import Ltf.Proofs.Teardown
import Ltf.Proofs.TestRun
import Ltf.Proofs.HookLogs
import Ltf.Proofs.DeferQueue
import Ltf.Proofs.DeferStatus
import Ltf.Proofs.StackHeights
import Ltf.Proofs.LogPartition
import Ltf.Proofs.MessageBytes
import Ltf.Proofs.StateRoundTrip
import Ltf.Proofs.TestOptions
import Ltf.Proofs.ScenarioChains
import Ltf.Proofs.ScenarioFields
import Ltf.Proofs.ScenarioLists
import Ltf.Proofs.TestRegistry
import Ltf.Proofs.TestOrder
import Ltf.Proofs.VarsParsed
import Ltf.Proofs.SecretsRoundTrip
import Ltf.Proofs.SshSteps
import Ltf.Proofs.SshSftp
import Ltf.Proofs.SshChannels
import Ltf.Proofs.TestLogs
import Ltf.Proofs.TargetRuns
import Ltf.Proofs.HttpHandles
import Ltf.Proofs.OptionStrings
import Ltf.Proofs.LogsInfo
import Ltf.Proofs.Duplicates
import Ltf.Proofs.SecretsParsed
import Ltf.Proofs.TestVars
import Ltf.Proofs.DaLists
import Ltf.Proofs.DaMemory
import Ltf.Proofs.ProcLua
import Ltf.Proofs.SftpSend
import Ltf.Proofs.SftpFailures
import Ltf.Proofs.SftpObjects
import Ltf.Proofs.LexicalPaths
import Ltf.Proofs.SftpPaths
import Ltf.Proofs.HttpHeaders
import Ltf.Proofs.LineCache
import Ltf.Proofs.TargetSave
import Ltf.Proofs.TargetPrompts
import Ltf.Proofs.LtfLog
import Ltf.Proofs.ReadUntil
import Ltf.Proofs.WrappedLines
import Ltf.Proofs.StringJoin
import Ltf.Proofs.VersionCheck
import Ltf.Proofs.KeywordTree
import Ltf.Proofs.ScreenColumns
import Ltf.Proofs.ScreenRegions
import Ltf.Proofs.RunProtocol
import Ltf.Proofs.RawLogReread
import Ltf.Proofs.RunLog
import Ltf.Proofs.LatestLog
import Ltf.Proofs.LatestInfo
import Ltf.Proofs.ContextImage
import Ltf.Proofs.SerialPorts
import Ltf.Proofs.SftpReceive
import Ltf.Proofs.HookedRun
import Ltf.Proofs.FilesLoaded
import Ltf.Proofs.WholeCommand
import Ltf.Proofs.ProcTimed
import Ltf.Proofs.FileTree
import Ltf.Proofs.LtfInit
import Ltf.Proofs.ProjectLife
import Ltf.Proofs.LuaWalk
import Ltf.Proofs.Listeners
import Ltf.Proofs.VarAccess
