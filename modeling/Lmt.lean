import Lmt.Metrics.Truncation
import Lmt.Ltop.PlaybackRefinement
import Lmt.Ltop.Rewind
import Lmt.Ltop.SampleRuns
import Lmt.Ltop.ServerOrder
import Lmt.Ltop.SummaryOrder
import Lmt.Ltop.RepeatedMetrics
import Lmt.Ltop.SortedLists
import Lmt.Ltop.RowHistory
import Lmt.Ltop.Rebuilding
import Lmt.Database.Routing
import Lmt.Database.Autoconfig
import Lmt.Database.OperationRows
import Lmt.Database.Timestamps
import Lmt.Database.UpdateOps
import Lmt.Database.Stamps
import Lmt.Scripts.Averages
import Lmt.Scripts.SmartSplit
import Lmt.Scripts.Configuration
import Lmt.Scripts.OstNulls
import Lmt.Scripts.FilesystemAgg
import Lmt.Proc.Renaming
import Lmt.Proc.Discipline
import Lmt.Proc.CpuUsage
import Lmt.Proc.BrwSections
import Lmt.Lsd.FreeLists
import Lmt.Lsd.ListItems
import Lmt.Metrics.OscMessage
import Lmt.Metrics.RouterMessage
