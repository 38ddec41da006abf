import Frona.App.Ports
import Frona.Auth.ChangeHandle
import Frona.Auth.Lockout
import Frona.Auth.NewHandles
import Frona.Auth.PasswordReset
import Frona.Auth.SessionRuns
import Frona.Auth.SsoRuns
import Frona.Auth.SsoStates
import Frona.Auth.UserFinds
import Frona.Auth.UserRuns
import Frona.Catalog.Lookup
import Frona.Channel.Discord
import Frona.Channel.Markdown
import Frona.Channel.Newlines
import Frona.Channel.Rows
import Frona.Channel.SignalExact
import Frona.Channel.SignalOffsets
import Frona.Channel.SignalRanges
import Frona.Channel.SignalStretches
import Frona.Channel.SupervisorStatus
import Frona.Chat.Answers
import Frona.Chat.BroadcastRuns
import Frona.Chat.CodeSpan
import Frona.Chat.CompactionRuns
import Frona.Chat.CompactionTail
import Frona.Chat.CompactorInput
import Frona.Chat.SplitBlocks
import Frona.Chat.SplitFits
import Frona.Chat.SplitPlain
import Frona.Chat.SplitSpans
import Frona.Config.Expansion
import Frona.Config.Pointer
import Frona.Config.Redaction
import Frona.Consolidate.AttributeUnion
import Frona.Consolidate.AttributeValues
import Frona.Consolidate.Classified
import Frona.Consolidate.ClassifiedLossless
import Frona.Consolidate.CurieKeys
import Frona.Consolidate.CurieLossless
import Frona.Consolidate.Temporal
import Frona.Consolidate.TemporalExact
import Frona.Consolidate.TemporalPeriods
import Frona.Consolidate.TemporalSound
import Frona.Consolidate.WorkItem
import Frona.Consolidate.WorkItemRuns
import Frona.Credential.Projection
import Frona.Credential.ResolverRuns
import Frona.Credential.RotationRuns
import Frona.Credential.Vault
import Frona.Credential.VaultBacked
import Frona.Credential.VaultRemoval
import Frona.Credential.VaultRemovalRuns
import Frona.Credential.VaultStart
import Frona.Credential.VaultStartRuns
import Frona.Evidence.Citable
import Frona.Inference.Blocks
import Frona.Inference.PairedRequests
import Frona.Inference.Retry
import Frona.Inference.RetryRecorded
import Frona.Inference.StructuredPairing
import Frona.Inference.Truncation
import Frona.Machine.Calendar
import Frona.Machine.Squeeze
import Frona.Ontology.TermRoundTrip
import Frona.Pkm.AuthoringRuns
import Frona.Pkm.CleanPath
import Frona.Pkm.Drain
import Frona.Pkm.NoteOnDisk
import Frona.Pkm.Origins
import Frona.Pkm.PageRoundTrip
import Frona.Pkm.PageText
import Frona.Pkm.PathRows
import Frona.Pkm.PathRuns
import Frona.Pkm.RecoveryRestores
import Frona.Pkm.ResetRuns
import Frona.Pkm.StampedRuns
import Frona.Policy.CommitAtomic
import Frona.Policy.Freshness
import Frona.Policy.GroupFrame
import Frona.Policy.Plan
import Frona.Policy.Replan
import Frona.Policy.ReplanGroup
import Frona.Policy.ReplanRows
import Frona.Policy.SandboxSound
import Frona.Policy.Turns
import Frona.Reconcile.Carriers
import Frona.Reconcile.FalseSuperseders
import Frona.Reconcile.Step
import Frona.Resolve.IdentityEvidence
import Frona.Resolve.Provenance
import Frona.Resolve.RedirectForest
import Frona.Task.ActiveRuns
import Frona.Task.AppliedEvents
import Frona.Task.Cron
import Frona.Task.CronRuns
import Frona.Task.LifecycleRuns
import Frona.Task.ParentRuns
import Frona.Task.Redrive
import Frona.Task.RedriveRuns
import Frona.Task.SignalRuns
import Frona.Text.Grounding
import Frona.Tool.EditRemoval
import Frona.Tool.EditReplaceAll
import Frona.Tool.EditUnique
import Frona.Tool.ResourceMonitor
import Frona.Tool.SchemaUnion
