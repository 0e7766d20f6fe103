import RssMdm.Actions.Discovery
import RssMdm.Actions.ExactlyOnce
import RssMdm.Actions.Exclusion
import RssMdm.Actions.RunHistory
import RssMdm.AgentWire.Chunks
import RssMdm.AgentWire.OsqueryBinding
import RssMdm.AppleMdm.Interruption
import RssMdm.Assets.RsqlMeaning
import RssMdm.ContentStore.Reclamation
import RssMdm.ContentStore.Transfer
import RssMdm.Authorization.Agreement
import RssMdm.BrewSource.Publication
import RssMdm.Compliance.Assessment
import RssMdm.DeviceTrust.Verify
import RssMdm.Group.Codec
import RssMdm.Group.Pages
import RssMdm.Group.Trace
import RssMdm.Groups.Acyclicity
import RssMdm.Inventory.Budget
import RssMdm.Inventory.Leaves
import RssMdm.Inventory.NativeReport
import RssMdm.Inventory.ReportRoundTrip
import RssMdm.Inventory.SourcePolicy
import RssMdm.Installer.CfbBudget
import RssMdm.Policy.History
import RssMdm.Policy.ScheduleDue
import RssMdm.Query.FilterPrint
import RssMdm.Query.Binding
import RssMdm.Query.Prefilter
import RssMdm.Resource.History
import RssMdm.Resource.Script
import RssMdm.Scope.Membership
import RssMdm.SoftwareRelease.Canonical
import RssMdm.SoftwareRelease.Replay
import RssMdm.TaskSigning.Rotation
import RssMdm.Telemetry.Cutoff
import RssMdm.Telemetry.Health
import RssMdm.Webhook.Rotation
import RssMdm.WindowsMdm.Codec
import RssMdm.WindowsMdm.Native.Dispatch
import RssMdm.WindowsMdm.Native.FromUri
import RssMdm.WindowsMdm.Native.PollEffects
import RssMdm.WindowsMdm.Native.Readback
import RssMdm.WindowsMdm.Native.Receipt
import RssMdm.WindowsMdm.Syncml.Flattening
import RssMdm.WindowsMdm.Syncml.LargeObject
import RssMdm.WindowsMdm.Syncml.Receipts
import RssMdm.WindowsMdm.Syncml.SentIndex
