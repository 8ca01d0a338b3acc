import Braidcast.Docking.Layout
import Braidcast.Docking.Holes
import Braidcast.Feed.Selection
import Braidcast.Feed.Gapless
import Braidcast.Feed.Patched
import Braidcast.Events.Purchases
import Braidcast.Schedule.Routing
import Braidcast.Schedule.Occurrences
import Braidcast.Chat.Retention
import Braidcast.Chat.Paging
import Braidcast.Chat.EchoPlaces
import Braidcast.Multistream.CrashSafety
import Braidcast.Multistream.CanvasNumbers
import Braidcast.Multistream.OneOutput
import Braidcast.OAuth.Updates
import Braidcast.Overlay.Replay
import Braidcast.Overlay.SocketDiscipline
import Braidcast.Overlay.AssetFiles
import Braidcast.Scene.OwnFiles
import Braidcast.Chat.Budget
import Braidcast.Chat.Seqs
import Braidcast.Chat.SseRetry
import Braidcast.Chat.Authority
import Braidcast.History.AllOrNothing
import Braidcast.History.HealthCounts
import Braidcast.Schedule.SetupNarrows
import Braidcast.Schedule.StartNow
import Braidcast.Schedule.Stopping
import Braidcast.Rtmp.References
import Braidcast.Rtmp.Interpolation
import Braidcast.OAuth.Readback
import Braidcast.OAuth.AccountCrash
import Braidcast.Data.HeapRuns
import Braidcast.Data.OneKey
import Braidcast.Output.AvcPackets
import Braidcast.Output.CleanStart
import Braidcast.Output.Delay
import Braidcast.Overlay.AlertPaceRuns
import Braidcast.Overlay.AlertRedactions
import Braidcast.Overlay.LeaderboardCounts
import Braidcast.Multistream.GateFlags
import Braidcast.Multistream.TargetReconcile
import Braidcast.Multistream.UsedRows
import Braidcast.Diag.CaptureLock
import Braidcast.Undo.History
import Braidcast.Scene.CanvasAway
import Braidcast.Overlay.StoreEdits
import Braidcast.Chat.JsonObjectStream
import Braidcast.Overlay.WidgetPage
import Braidcast.Chat.TwitchFragments
import Braidcast.Chat.TwitchIrc
import Braidcast.Overlay.Migration
import Braidcast.OAuth.PacificMidnight
import Braidcast.Boot.BrowserHwAccel
import Braidcast.Import.SceneSelection
import Braidcast.Chat.PageModeration
import Braidcast.Overlay.SoundRuns
import Braidcast.Data.JsonTrip
import Braidcast.Multistream.PresetTrip
import Braidcast.Multistream.ReorderByUuid
import Braidcast.Util.RequestGuard
import Braidcast.Util.Timespec
import Braidcast.Output.SpsParams
import Braidcast.Overlay.FillTemplate
import Braidcast.Util.Deque
import Braidcast.Schedule.Layout
