import OpenBitFun.AnsiCleanerRows
import OpenBitFun.BackgroundCommandOutputRuns
import OpenBitFun.ContextCompressorExact
import OpenBitFun.ContextCompressorTodos
import OpenBitFun.DeepReviewBudgetRuns
import OpenBitFun.DevicePresenceGate
import OpenBitFun.DialogTurnQueueOrder
import OpenBitFun.DiffServiceHunks
import OpenBitFun.DocxOpsExact
import OpenBitFun.DocxReplaceMatches
import OpenBitFun.EditFileFrame
import OpenBitFun.EventQueueOrder
import OpenBitFun.GeminiSchemaRequired
import OpenBitFun.HiddenTextChunks
import OpenBitFun.HostMessageRuns
import OpenBitFun.ImageBudgetHolds
import OpenBitFun.InlineThinkMeta
import OpenBitFun.JsonRender
import OpenBitFun.JsoncStrip
import OpenBitFun.Markdown
import OpenBitFun.MarkdownLedger
import OpenBitFun.MarkdownTexts
import OpenBitFun.MarkdownTextsRuns
import OpenBitFun.MessageSpeakers
import OpenBitFun.ModelPoolFence
import OpenBitFun.ModelPoolSelection
import OpenBitFun.PermissionDelegation
import OpenBitFun.PermissionPlan
import OpenBitFun.PermissionRequestsStores
import OpenBitFun.ReadFilePages
import OpenBitFun.RequestCapacityRuns
import OpenBitFun.RouterContextInvariant
import OpenBitFun.RouterHistoryBatch
import OpenBitFun.RouterInputBudget
import OpenBitFun.RouterMemo
import OpenBitFun.RouterPromptBudget
import OpenBitFun.RouterTokenCacheRuns
import OpenBitFun.RuntimeEventLog
import OpenBitFun.RuntimeIpcFramingRuns
import OpenBitFun.SessionEventJournalBackfill
import OpenBitFun.SessionEventJournalContent
import OpenBitFun.SessionLineageSnapshot
import OpenBitFun.SessionPageReads
import OpenBitFun.SessionRevert
import OpenBitFun.ShellTargets
import OpenBitFun.StreamProcessorRuns
import OpenBitFun.SummaryQueueFairness
import OpenBitFun.SummaryQueueTickets
import OpenBitFun.ThreadGoalRuns
import OpenBitFun.TokenAnchorSelection
import OpenBitFun.ToolCallRuns
import OpenBitFun.UsageStatistics
import OpenBitFun.UsageStatisticsTrend
import OpenBitFun.UserContent
import OpenBitFun.UserQuestionsRuns
import OpenBitFun.XlsxEvaluatorMemo
import OpenBitFun.XlsxFormulaShift
