import Cxdb.Backups
import Cxdb.BlockedQueue
import Cxdb.CaptureFidelity
import Cxdb.CapturedHistories
import Cxdb.CaseMatching
import Cxdb.CleanRestart
import Cxdb.CompressedAppends
import Cxdb.Conversations
import Cxdb.CqlPanics
import Cxdb.DateQueries
import Cxdb.DeliveryHealth
import Cxdb.Descendants
import Cxdb.EventBroker
import Cxdb.EventDecoders
import Cxdb.FallbackQueries
import Cxdb.FollowTurns
import Cxdb.FsContentBytes
import Cxdb.HttpEntities
import Cxdb.Idempotency
import Cxdb.IntegerFields
import Cxdb.LedgerFile
import Cxdb.LinkCycles
import Cxdb.LiveContexts
import Cxdb.MetadataKeys
import Cxdb.Mirror
import Cxdb.OrdinalOrder
import Cxdb.ProjectedTags
import Cxdb.ProxyPaths
import Cxdb.QueryLaws
import Cxdb.QueueAnswers
import Cxdb.Reconnect
import Cxdb.ReconnectRecovery
import Cxdb.RepostedScalars
import Cxdb.SchemaEvolution
import Cxdb.SessionCookies
import Cxdb.SnapshotUpload
import Cxdb.StreamCapture
import Cxdb.StreamReaders
import Cxdb.ToolCallSlots
import Cxdb.TreeReading
import Cxdb.WriteFailures
