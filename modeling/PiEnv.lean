import PiEnv.Lib.Program
import PiEnv.Lib.JsString
import PiEnv.Lib.Splitting
import PiEnv.Lib.Utf8
import PiEnv.Lib.PosixPath
import PiEnv.Lib.Json
import PiEnv.Lib.IsoDate
import PiEnv.Lib.JsonText
import PiEnv.Lib.Double
import PiEnv.Lib.JsonNumber
import PiEnv.Lib.JsonRoundTrip
import PiEnv.Lib.Base64
import PiEnv.Lib.PackedJson
import PiEnv.Lib.Paging
import PiEnv.Lib.Sorting
import PiEnv.Lib.JsonLength
import PiEnv.Notes.Domain
import PiEnv.Notes.CollectionPolicy
import PiEnv.Notes.Blocks
import PiEnv.Notes.ExactEdits
import PiEnv.Notes.SectionLines
import PiEnv.Notes.ReaderLines
import PiEnv.Notes.ReadBack
import PiEnv.Notes.Undisturbed
import PiEnv.Notes.StorePath
import PiEnv.Notes.Contract
import PiEnv.Notes.Appends
import PiEnv.Notes.Items
import PiEnv.Notes.Reading
import PiEnv.Notes.Cursor
import PiEnv.Notes.Inventory
import PiEnv.Notes.Worklog
import PiEnv.Notes.Collections
import PiEnv.Notes.CollectionReads
import PiEnv.Notes.EarliestInbox
import PiEnv.Notes.ObsidianVault
import PiEnv.Notes.ObsidianListing
import PiEnv.DevTools.WorkspaceEdit
import PiEnv.DevTools.WorkspaceFiles
import PiEnv.DevTools.WorkspaceDisk
import PiEnv.DevTools.WorkspaceCommit
import PiEnv.DevTools.WorkspaceStaging
import PiEnv.DevTools.WorkspaceAtomicity
import PiEnv.SessionManager.Contracts
import PiEnv.SessionManager.Schema
import PiEnv.DevTools.LspTransport
import PiEnv.Lib.Transitions
import PiEnv.DevTools.DaemonSocket
import PiEnv.DevTools.ClientRequests
import PiEnv.Lib.JsMap
import PiEnv.DevTools.DocumentManager
import PiEnv.DevTools.DocumentSync
import PiEnv.DevTools.Backend
import PiEnv.DevTools.BackendFrames
import PiEnv.DevTools.BackendInvariants
import PiEnv.DevTools.BackendRequests
import PiEnv.DevTools.BackendGenerations
import PiEnv.DevTools.BackendDocuments
import PiEnv.DevTools.BackendLifecycle
import PiEnv.SessionManager.RuntimeFrames
import PiEnv.SessionManager.RuntimeBus
import PiEnv.SessionManager.RuntimeAnswers
import PiEnv.SessionManager.RuntimeIdempotency
import PiEnv.SessionManager.ReadyWaiters
import PiEnv.Lib.Triple
import PiEnv.SessionManager.Host
import PiEnv.SessionManager.HostServer
import PiEnv.SessionManager.HostBindings
import PiEnv.Lib.Evaluation
import PiEnv.SessionManager.Launch
import PiEnv.SessionManager.Start
import PiEnv.SessionManager.StartRecovery
import PiEnv.Notes.StoreContainment
import PiEnv.Notes.WikiNavigation
import PiEnv.Lib.History
import PiEnv.DevTools.Worktrees
import PiEnv.DevTools.Cleanup
import PiEnv.DevTools.CleanupRemovals
import PiEnv.DevTools.Closeout
import PiEnv.DevTools.CloseoutGuards
import PiEnv.DevTools.Handlers
import PiEnv.Lib.JsonLines
import PiEnv.Analyze.Journal
import PiEnv.Analyze.JournalPruning
import PiEnv.Analyze.JournalBounds
import PiEnv.DevTools.LspClient
import PiEnv.DevTools.LspClientTable
import PiEnv.DevTools.LspDaemon
import PiEnv.DevTools.LspDaemonDrain
import PiEnv.Analyze.Engine
import PiEnv.Analyze.EngineAccounting
import PiEnv.Notes.PathAgreement
import PiEnv.Notes.Prefixes
import PiEnv.Notes.SearchExact
import PiEnv.Notes.CursorBounds
import PiEnv.Notes.VaultMutations
import PiEnv.Notes.MutationFiles
import PiEnv.Notes.MutationChanges
import PiEnv.Notes.MutationTurns
import PiEnv.Notes.MutationGuards
import PiEnv.DevTools.DocumentTable
import PiEnv.DevTools.DiagnosticsCache
import PiEnv.DevTools.DiagnosticsQuiet
import PiEnv.Scripts.HeavyweightLock
import PiEnv.Scripts.LicenseBundle
import PiEnv.Scripts.LicenseRecords
import PiEnv.Scripts.HeavyweightExclusion
import PiEnv.Subagent.Control
import PiEnv.Subagent.Admission
import PiEnv.Subagent.SessionRuntime
import PiEnv.Subagent.SessionTransitions
import PiEnv.Subagent.SessionSupervisors
import PiEnv.Subagent.Jobs
import PiEnv.Subagent.JobStates
import PiEnv.Subagent.NativeChild
import PiEnv.Subagent.NativeChildOwnership
import PiEnv.Lib.Turns
import PiEnv.Playwright.Client
import PiEnv.Playwright.Actions
import PiEnv.Playwright.Programs
import PiEnv.Playwright.Connections
import PiEnv.Playwright.Control
import PiEnv.Playwright.Lookups
import PiEnv.Playwright.Selection
import PiEnv.Lib.Framing
import PiEnv.General.Tmux
import PiEnv.General.TmuxStatus
import PiEnv.General.TmuxSnapshots
import PiEnv.General.TmuxRuns
import PiEnv.General.TmuxPublication
import PiEnv.DevTools.Containment
import PiEnv.Lib.Splice
import PiEnv.DevTools.TextEdits
import PiEnv.DevTools.DiagnosticsWaiters
import PiEnv.Lib.Lines
import PiEnv.DevTools.SocketLines
import PiEnv.Lib.Grouping
import PiEnv.Analyze.Duplicates
import PiEnv.Analyze.TypeMatches
import PiEnv.Analyze.TypeMatchReports
import PiEnv.Lib.Pattern
import PiEnv.WebContext.Entities
import PiEnv.WebContext.Fetch
import PiEnv.Subagent.JobRetention
import PiEnv.Lib.GitText
import PiEnv.DevTools.WorktreeListing
import PiEnv.Analyze.UnifiedDiffs
import PiEnv.Lib.Records
import PiEnv.Lib.Markers
import PiEnv.Lib.Search
import PiEnv.SessionManager.CanonicalText
import PiEnv.SessionManager.ManifestDecoder
import PiEnv.Process.Collection
import PiEnv.Process.Verdict
import PiEnv.Process.Collected
import PiEnv.Lib.RoseTree
import PiEnv.Analyze.Walk
import PiEnv.WebContext.Truncation
import PiEnv.Setup.ManagedBlock
import PiEnv.Setup.BlockTurns
import PiEnv.Setup.NamedBlocks
import PiEnv.Introspection.Usage
import PiEnv.Introspection.UsageReferences
import PiEnv.Review.Context
import PiEnv.Review.Pagination
import PiEnv.SessionManager.Lifecycle
import PiEnv.SessionManager.Lineage
