import Amide.Properties.Actions.Order
import Amide.Properties.Agent.QueuedMessages
import Amide.Properties.Agent.ToolResults
import Amide.Properties.AgentsView.ShownSessions
import Amide.Properties.Ai.AnthropicStreams
import Amide.Properties.Ai.Continuations
import Amide.Properties.Ai.RepairedLiterals
import Amide.Properties.Ai.SocketAccounting
import Amide.Properties.Ai.TransformedMessages
import Amide.Properties.Compaction.BranchSummaries
import Amide.Properties.Compaction.SplitTurns
import Amide.Properties.Cron.Lanes
import Amide.Properties.Cron.NextRun
import Amide.Properties.Daemon.CommandRecovery
import Amide.Properties.Daemon.OwnershipExclusion
import Amide.Properties.Daemon.RosterIndexes
import Amide.Properties.Daemon.SettledWaits
import Amide.Properties.Daemon.SnapshotFreshness
import Amide.Properties.Daemon.StreamReconstruction
import Amide.Properties.Daemon.WorkerRecovery
import Amide.Properties.Kernel.Permits
import Amide.Properties.Logs.FamilyTree
import Amide.Properties.Logs.LedgerSeeding
import Amide.Properties.Messaging.FamilyReach
import Amide.Properties.Messaging.MessageRate
import Amide.Properties.Refinement.ConcurrentChanges
import Amide.Properties.Refinement.Merging
import Amide.Properties.Refinement.Rollback
import Amide.Properties.Rpc.LineReader
import Amide.Properties.Semantic.Conservation
import Amide.Properties.Semantic.LastCommit
import Amide.Properties.Semantic.LedgerOrder
import Amide.Properties.Semantic.Repeats
import Amide.Properties.Session.BranchedSessions
import Amide.Properties.Session.Forks
import Amide.Properties.Session.LeaseExclusion
import Amide.Properties.Session.LoaderAgreement
import Amide.Properties.Session.Migration
import Amide.Properties.Session.Reload
import Amide.Properties.SessionWorker.Frames
import Amide.Properties.Settings.SettingsWrites
import Amide.Properties.Tools.DiffNumbers
import Amide.Properties.Tools.EditQueue
import Amide.Properties.Tools.OutputSnapshots
import Amide.Properties.Tools.TruncationWindows
import Amide.Properties.Tui.CachedExtractor
import Amide.Properties.Tui.FullscreenPaint
import Amide.Properties.Tui.InputChunking
import Amide.Properties.Tui.ScreenContents
import Amide.Properties.Tui.WrappedText
