import MinimalRedis.Aborts
import MinimalRedis.Client
import MinimalRedis.ClientLines
import MinimalRedis.ConnectionBuffer
import MinimalRedis.Counts
import MinimalRedis.DaemonCounters
import MinimalRedis.DaemonPacing
import MinimalRedis.DaemonStopping
import MinimalRedis.Dialogue
import MinimalRedis.DictionaryRefinement
import MinimalRedis.ElementReplies
import MinimalRedis.FleetMessages
import MinimalRedis.GhostKeys
import MinimalRedis.Interleaving
import MinimalRedis.Lifetime
import MinimalRedis.Linearizable
import MinimalRedis.ListQueue
import MinimalRedis.NestedMulti
import MinimalRedis.Notify
import MinimalRedis.NumericArgs
import MinimalRedis.OptimisticUpdates
import MinimalRedis.Ranges
import MinimalRedis.RdbFailure
import MinimalRedis.RdbRecords
import MinimalRedis.RdbRoundTrip
import MinimalRedis.Registry
import MinimalRedis.ReplyParsing
import MinimalRedis.RespIncomplete
import MinimalRedis.RespProgress
import MinimalRedis.Schedules
import MinimalRedis.ScriptCache
import MinimalRedis.ScriptCalls
import MinimalRedis.ScriptReplies
import MinimalRedis.ScriptSafety
import MinimalRedis.SetAlgebra
import MinimalRedis.SlotOwnership
import MinimalRedis.Streaming
import MinimalRedis.Subscriptions
import MinimalRedis.TextFormat
import MinimalRedis.Tui
import MinimalRedis.TypeChange
import MinimalRedis.ZsetOrder
