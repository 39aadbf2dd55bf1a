import IdtxCore.Versions
import IdtxCore.MailboxWrap
import IdtxCore.SchedulerIdle
import IdtxCore.SchedulerPriority
import IdtxCore.DrainBatch
import IdtxCore.TransformDispatcher
import IdtxCore.SessionOrder
import IdtxCore.SessionChanges
import IdtxCore.SessionStale
import IdtxCore.SessionSent
import IdtxCore.ServerAcks
import IdtxCore.Convergence
import IdtxCore.Corrections
import IdtxCore.RateLimitHandler
import IdtxCore.Teardown
import IdtxCore.Reaper
import IdtxCore.Sidecar
import IdtxCore.Upload
import IdtxCore.SessionDeleted
import IdtxCore.SharedReload
import IdtxCore.JoinActive
import IdtxCore.NoticeWindow
import IdtxCore.FileServing
import IdtxCore.ReloadTargets
import IdtxCore.PrimRequests
import IdtxCore.SoftDeletes
import IdtxCore.ReloadBroadcasts
import IdtxCore.Repackage
import IdtxCore.CommandFlags
import IdtxCore.MiniPngDecode
import IdtxCore.JwksCache
import IdtxCore.RequestQuota
import IdtxCore.BruteForce
import IdtxCore.LoginLockout
import IdtxCore.ThumbnailLayout
import IdtxCore.WorkerExecutor
import IdtxCore.LimiterBounds
import IdtxCore.PercentDecode
import IdtxCore.ThreadedServer
import IdtxCore.SessionLifetime
import IdtxCore.WebSocketController
import IdtxCore.CommitCrash
import IdtxCore.ThumbnailWorker
import IdtxCore.CommitRequests
import IdtxCore.ThumbnailPicture
import IdtxCore.SchedulerLiveness
import IdtxCore.ServerLiveness
import IdtxCore.UploadsRoot
