import CrashLab.RunHistory
import CrashLab.QuotaContention
import CrashLab.SchedulerRuns
import CrashLab.Shrink
import CrashLab.SequenceAttribution
import CrashLab.ClusterOrder
import CrashLab.DryRunMerge
import CrashLab.MergeJoin
import CrashLab.ManifestBinding
import CrashLab.ProvenanceChain
import CrashLab.CorpusRetention
import CrashLab.SignaturePreimage
import CrashLab.MutationProgress
import CrashLab.SanitizerAgreement
import CrashLab.BudgetSearch
import CrashLab.StoreAgreement
import CrashLab.TornLog
import CrashLab.DeadLetters
import CrashLab.RetryFencing
import CrashLab.DeliveryCrashes
import CrashLab.AuditPages
import CrashLab.CampaignReplay
import CrashLab.CampaignIsolation
import CrashLab.CampaignLeases
import CrashLab.CronLock
import CrashLab.TickCoverage
import CrashLab.SkippedSlots
import CrashLab.ScheduleEdits
import CrashLab.Backfill
import CrashLab.RecordAgreement
import CrashLab.RunAgreement
import CrashLab.TokenLifecycle
import CrashLab.TenantIsolation
import CrashLab.KeysetStability
import CrashLab.WasmTotality
import CrashLab.SlidingWindows
import CrashLab.TriageAgreement
import CrashLab.CallerIsolation
import CrashLab.WasmSignatures
import CrashLab.AlertEscalation
import CrashLab.RunProgress
import CrashLab.CursorProgress
import CrashLab.CheckpointFiles
import CrashLab.RingMarks
import CrashLab.Deletions
import CrashLab.SequenceShrink
import CrashLab.SequenceExchange
import CrashLab.FlakyVerdicts
import CrashLab.SeedFixpoint
import CrashLab.BucketMaps
import CrashLab.Redact
import CrashLab.PortableCorpus
import CrashLab.SearchIndex
import CrashLab.SearchHistory
import CrashLab.SearchCandidates
import CrashLab.Recursions
import CrashLab.SpecDiff
import CrashLab.DiffTermination
import CrashLab.DiffSoundness
import CrashLab.Prng
import CrashLab.QuotaAdmission
import CrashLab.BitGroups
import CrashLab.StellarAddress
import CrashLab.StrkeyCodec
import CrashLab.Baseline
import CrashLab.Rankings
import CrashLab.Retention
import CrashLab.Marks
import CrashLab.RawTails
import CrashLab.SanitizerFixpoint
import CrashLab.SafeRedirect
import CrashLab.CronGrammar
import CrashLab.NextRunSearch
import CrashLab.TickRepeats
import CrashLab.BudgetBounds
import CrashLab.Cors
import CrashLab.CampaignTimeline
import CrashLab.TimelineAccounts
import CrashLab.Doubles
import CrashLab.QuotaParity
import CrashLab.SanitizerBounds
import CrashLab.Histories
import CrashLab.FixtureSanitize
import CrashLab.WebhookDlq
import CrashLab.MisfirePolicies
import CrashLab.LeaseLedger
import CrashLab.AlertDispatcher
import CrashLab.ProvenanceSeal
import CrashLab.WebhookRetryQueue
import CrashLab.ScVal
import CrashLab.LeasedDriver
import CrashLab.CampaignRoute
import CrashLab.AuditScopes
import CrashLab.Fallible
import CrashLab.LedgerDiff
import CrashLab.LedgerFidelity
import CrashLab.BulkTriage
import CrashLab.WasmIntegers
import CrashLab.NameSections
import CrashLab.RoleStore
import CrashLab.SearchGrammar
import CrashLab.SearchPrinting
import CrashLab.RegressionGrouping
import CrashLab.RegressionSuites
