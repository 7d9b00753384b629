import Keiko.TemplatePattern
import Keiko.Library.Power
import Keiko.TemplateProgram
import Keiko.TemplateMatch
import Keiko.EditorLayout
import Keiko.EditorLayoutInvariant
import Keiko.EditorLayoutTabs
import Keiko.EditorLayoutPersistence
import Keiko.EditorLayoutRestore
import Keiko.UnifiedDiff
import Keiko.Library.Except
import Keiko.UnifiedDiffInvariant
import Keiko.UnifiedDiffSources
import Keiko.PatchRender
import Keiko.PatchRoundTrip
import Keiko.Library.Splice
import Keiko.PatchContent
import Keiko.PatchSplice
import Keiko.Library.Store
import Keiko.PatchCommit
import Keiko.PatchAlign
import Keiko.PatchNormalize
import Keiko.PatchValidation
import Keiko.PatchSections
import Keiko.CircuitBreaker
import Keiko.CircuitBreakerInvariant
import Keiko.CircuitBreakerGenerations
import Keiko.RetryLoop
import Keiko.RetryBudget
import Keiko.ContextAllocation
import Keiko.Library.Greedy
import Keiko.ContextAllocationPlan
import Keiko.ContextCompaction
import Keiko.Library.Search
import Keiko.LspFrame
import Keiko.LspFrameChunking
import Keiko.Library.Binary64
import Keiko.Library.Decimal
import Keiko.Library.JsonText
import Keiko.EditorLayoutRoundTrip
import Keiko.SupportReportJson
import Keiko.SupportReportCanonical
import Keiko.SupportReportScan
import Keiko.HarnessLoop
import Keiko.HarnessLimits
import Keiko.Library.EditGraph
import Keiko.LineOffsets
import Keiko.TextEdits
import Keiko.LineDiff
import Keiko.LineDiffSearch
import Keiko.LineDiffBlocks
import Keiko.LineDiffHunks
import Keiko.LineDiffApply
import Keiko.LineDiffRoundTrip
import Keiko.EventHub
import Keiko.EventHubRetention
import Keiko.EventHubResume
import Keiko.EventHubDelivery
import Keiko.Library.Trace
import Keiko.MutationLease
import Keiko.MutationLeaseTrace
import Keiko.RunOperation
import Keiko.RunOperationTrace
import Keiko.Library.Bloom
import Keiko.Library.OrderedMap
import Keiko.ToolInvocation
import Keiko.ToolInvocationTrace
import Keiko.ToolInvocationEviction
import Keiko.CiRepairBudget
import Keiko.CiRepairBudgetTrace
import Keiko.CiRepairBudgetCapacity
import Keiko.Library.Gates
import Keiko.WorkspaceMutex
import Keiko.WorkspaceMutexTrace
import Keiko.ChatTurnSerializer
import Keiko.ChatTurnSerializerTrace
import Keiko.OpenCodeReconciler
import Keiko.OpenCodeReconcilerTrace
import Keiko.EditorAgentRegistry
import Keiko.EditorAgentRegistryTrace
import Keiko.ConnectorSync
import Keiko.ConnectorSyncTrace
import Keiko.PrDescriptionRegion
import Keiko.PrDescriptionFences
import Keiko.PrDescriptionUpdate
import Keiko.Library.CodeUnit
import Keiko.Library.Pattern
import Keiko.RegexSafety
import Keiko.RegexSafetyPieces
import Keiko.RegexSafetyScans
import Keiko.RegexSafetyGate
import Keiko.Library.Bytes
import Keiko.Library.Utf16
import Keiko.SecureWorkspaceWire
import Keiko.SecureWorkspaceHelper
import Keiko.SecureWorkspaceText
import Keiko.SecureWorkspaceRoundTrip
import Keiko.SecureWorkspaceNative
import Keiko.SecureWorkspaceCodecs
import Keiko.ProcessLines
import Keiko.RollingWindow
import Keiko.WorkerLanes
import Keiko.WorkerLanesTrace
import Keiko.CanonicalJson
import Keiko.SupervisedApproval
import Keiko.SupervisedApprovalTrace
import Keiko.PatchNormalizeCounts
import Keiko.Library.EditCost
import Keiko.LineDiffMinimal
import Keiko.HotExitStore
import Keiko.HotExitStoreTrace
import Keiko.Library.Utf8Cut
import Keiko.LiveText
import Keiko.LiveTextTrace
import Keiko.SequenceNumbers
import Keiko.Library.Pairing
import Keiko.FingerprintDiff
import Keiko.Library.UnitText
import Keiko.CsvTokenizer
import Keiko.CsvRoundTrip
import Keiko.Library.Occurrences
import Keiko.SecretRedaction
import Keiko.Library.UnionFind
import Keiko.Library.Grouping
import Keiko.Library.Comparator
import Keiko.Library.Rounded
import Keiko.Library.LowerCase
import Keiko.MemorySimilarity
import Keiko.DuplicateClusters
import Keiko.DuplicateComponents
import Keiko.ConsolidationSummary
import Keiko.Library.Backtrack
import Keiko.MemoryConflicts
import Keiko.Consolidation
import Keiko.Library.Words
import Keiko.ConsolidationReport
import Keiko.ConflictReports
import Keiko.Library.BinaryHeap
import Keiko.RepoSearchRetention
import Keiko.Library.NumberText
import Keiko.Comparators
import Keiko.RequirementComparison
import Keiko.RequirementReport
import Keiko.RequirementReport
import Keiko.RequirementChangeSet
import Keiko.RequirementChangeSet
import Keiko.Library.UnitDecimal
import Keiko.Library.UnitJson
import Keiko.JiraDraftKeyRanges
import Keiko.JiraDraftKeyLists
import Keiko.Library.Segments
import Keiko.EditorWorkspacePath
import Keiko.EditorPathNormal
import Keiko.EditorFileTarget
import Keiko.EditorTargetNames
import Keiko.EditorFileTarget
import Keiko.EditorTargetNames
import Keiko.ToolCallIds
import Keiko.EvidenceRetention
import Keiko.JiraRequirementTrace
import Keiko.JiraDraftReconcile
import Keiko.JiraTraceFooter
import Keiko.FilenameGlob
import Keiko.MemorySerialize
import Keiko.GitCiReviews
import Keiko.ImportGraphAlias
import Keiko.ImportGraphEdges
import Keiko.ActivityLogLineReader
