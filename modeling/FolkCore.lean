import FolkCore.Lib.Transition
import FolkCore.Lib.Everywhere
import FolkCore.Lib.SortedInsert
import FolkCore.Data.Json
import FolkCore.Data.Protocol
import FolkCore.Data.Utf8
import FolkCore.Data.Zval
import FolkCore.Bridge.State
import FolkCore.Bridge.Response
import FolkCore.Bridge.Body
import FolkCore.Bridge.Calls
import FolkCore.Bridge.Session
import FolkCore.Bridge.History
import FolkCore.Bridge.Ledger
import FolkCore.Bridge.Legality
import FolkCore.Bridge.DispatchLoop
import FolkCore.Bridge.HandlerFailure
import FolkCore.Bridge.StreamForm
import FolkCore.Bridge.StreamDiscipline
import FolkCore.Bridge.Parts
import FolkCore.Bridge.Multipart
import FolkCore.Pool.SlotInfo
import FolkCore.Pool.Supervisor
import FolkCore.Pool.System
import FolkCore.Pool.SupervisorMoves
import FolkCore.Pool.Commands
import FolkCore.Pool.Moves
import FolkCore.Pool.Tickets
import FolkCore.Pool.Requests
import FolkCore.Pool.Replies
import FolkCore.Lib.RoundRobin
import FolkCore.Pool.Dispatch
import FolkCore.Pool.Posts
import FolkCore.Ext.ChannelWorker
import FolkCore.Ext.Replacement
import FolkCore.Ext.Turns
import FolkCore.Ext.TaskChannel
import FolkCore.Pool.Handles
import FolkCore.Ext.Abandoned
import FolkCore.Bridge.Isolation
import FolkCore.Bridge.RawReads
import FolkCore.Bridge.RawBody
import FolkCore.Bridge.EmptyReads
import FolkCore.Bridge.PathAgreement
import FolkCore.Bridge.PhpCall
import FolkCore.Bridge.ReturnPaths
import FolkCore.Bridge.ReturnedText
import FolkCore.Ext.Collectors
import FolkCore.Ext.RoundTrip
import FolkCore.Pool.Permits
import FolkCore.Pool.Generations
import FolkCore.Pool.Lifecycle
import FolkCore.Pool.Ages
import FolkCore.Pool.Shutdown
import FolkCore.Pool.Drain
import FolkCore.Ext.Spawn
import FolkCore.Ext.SpawnRace
import FolkCore.Ext.WorkerIds
import FolkCore.Ext.StartServer
import FolkCore.Ext.Receipts
import FolkCore.Ext.Attribution
import FolkCore.Pool.Contents
import FolkCore.Plugins.Registry
import FolkCore.Pool.MainLoop
import FolkCore.Pool.MainSimulation
import FolkCore.Lib.Staged
import FolkCore.Ext.Execute
import FolkCore.Pool.Answers
import FolkCore.Bridge.Arrivals
import FolkCore.Ext.Lives
import FolkCore.Ext.Threads
import FolkCore.Ext.StreamContract
import FolkCore.Ext.Completion
import FolkCore.Pool.Order
import FolkCore.Pool.Waiting
import FolkCore.Pool.Itinerary
import FolkCore.Lib.RwLock
import FolkCore.Ext.MethodRegistry
import FolkCore.Ext.PhpFunctions
import FolkCore.Plugins.HealthRegistry
import FolkCore.Plugins.Server
import FolkCore.Ext.Blocking
import FolkCore.Ext.Teardown
import FolkCore.Ext.Clients
import FolkCore.Ext.Statics
import FolkCore.Data.Path
import FolkCore.Pool.Watch
