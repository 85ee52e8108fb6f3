import Dayseam.Lib.Text
import Dayseam.Lib.Calendar
import Dayseam.Lib.StableSort
import Dayseam.Lib.BestMerge
import Dayseam.Core.Types
import Dayseam.Sink.Markers
import Dayseam.Sink.MarkerGrammar
import Dayseam.Sink.MarkerRoundTrip
import Dayseam.Sink.MarkerVerdict
import Dayseam.Sink.PlainText
import Dayseam.Sink.SummaryChart
import Dayseam.Sink.Markdown
import Dayseam.Sink.Saving
import Dayseam.Sink.Preview
import Dayseam.Sink.Frame
import Dayseam.Sink.Injection
import Dayseam.Sink.FrontmatterSplit
import Dayseam.Orchestrator.Publishing
import Dayseam.Orchestrator.InFlight
import Dayseam.Orchestrator.RunHistory
import Dayseam.Orchestrator.FanOut
import Dayseam.Orchestrator.CompletionOrder
import Dayseam.Schedule.PlannerSpec
import Dayseam.Schedule.Credit
import Dayseam.Schedule.Runner
import Dayseam.Report.RollupKept
import Dayseam.Report.PipelineFrame
import Dayseam.Report.Triggers
import Dayseam.Report.TicketKeys
import Dayseam.Report.PullRequestUrls
import Dayseam.Report.Evidence
import Dayseam.Report.DraftShape
import Dayseam.Report.VerboseMode
import Dayseam.Connectors.DayWindow
import Dayseam.Connectors.EventIdentity
import Dayseam.Connectors.GitlabWalk
import Dayseam.Connectors.JiraWalk
import Dayseam.Connectors.JiraCascades
import Dayseam.Connectors.OutlookWalk
import Dayseam.Connectors.GithubWalk
import Dayseam.Connectors.GithubReviews
import Dayseam.Connectors.ConfluenceWalk
import Dayseam.Connectors.HttpPolicy
import Dayseam.Connectors.LinkHeader
import Dayseam.Connectors.CursorQuery
import Dayseam.Connectors.AdfText
import Dayseam.Sink.WriteReport
import Dayseam.Report.MeetingTimes
import Dayseam.Report.Redaction
import Dayseam.Report.DedupSurvivor
import Dayseam.Report.PrivateMeetings
import Dayseam.Auth.LoginSession
import Dayseam.Db.LocalRepos
import Dayseam.Db.Reconcile
import Dayseam.Db.Timestamps
import Dayseam.Connectors.LocalGit
import Dayseam.Connectors.Discovery
import Dayseam.Desktop.PrivateRepos
import Dayseam.Desktop.Registry
import Dayseam.Desktop.AtlassianAccounts
import Dayseam.Desktop.SecretUse
import Dayseam.Desktop.ReportShown
import Dayseam.Desktop.RunRegistry
import Dayseam.Desktop.Isolation
import Dayseam.Desktop.ScanRoots
import Dayseam.Desktop.ShellOpen
import Dayseam.Desktop.PartialUpdate
import Dayseam.Orchestrator.Hydration
import Dayseam.Sink.LockRace
import Dayseam.Sink.DayMap
import Dayseam.Db.Persons
import Dayseam.Lib.FillGaps
