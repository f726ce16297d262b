import Jetmon.FetchLoop
import Jetmon.Escalation
import Jetmon.VoluntaryExit
import Jetmon.DownAlarm
import Jetmon.RoundReport
import Jetmon.HttpVerdict
import Jetmon.StatusServer
import Jetmon.CheckConcurrency
import Jetmon.SiteIdentity
import Jetmon.OneEscalation
import Jetmon.StatusNotice
import Jetmon.Aggregation
import Jetmon.CheckStatistics
import Jetmon.WorkerRegistry
import Jetmon.DbConfigFile
import Jetmon.DbPools
import Jetmon.TotalsLedger
import Jetmon.UrlParts
import Jetmon.RequestBuffer
import Jetmon.ResponseChunks
import Jetmon.Utf8Text
import Jetmon.ClientRequest
import Jetmon.Iteration
import Jetmon.ResponseRead
import Jetmon.SocketCheck
import Jetmon.ConnectionPort
import Jetmon.LocationHeader
import Jetmon.RelativeRedirect
import Jetmon.TlsHandles
import Jetmon.QueueDelay
import Jetmon.RetrySweep
import Jetmon.Evaporation
import Jetmon.WorkerParallelism
import Jetmon.CheckDocument
import Jetmon.CheckSignals
import Jetmon.ServerLines
import Jetmon.Batching
import Jetmon.StatsdClient
import Jetmon.ResultReturn
import Jetmon.PeerNetwork
import Jetmon.AlarmEvidence
import Jetmon.RetryTimeout
import Jetmon.SiteFlow
import Jetmon.StatusChanges
import Jetmon.StatusCycle
import Jetmon.LostConnections
import Jetmon.LogRotation
import Jetmon.WorkLedger
import Jetmon.IsoDate
import Jetmon.NotificationUrl
