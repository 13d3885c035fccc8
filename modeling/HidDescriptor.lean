import HidDescriptor.Cursor
import HidDescriptor.Device.Channel
import HidDescriptor.Device.Event
import HidDescriptor.Device.Filter
import HidDescriptor.Layout.Notes
import HidDescriptor.Proofs.Generic
import HidDescriptor.Proofs.Bracket
import HidDescriptor.Proofs.History
import HidDescriptor.Proofs.Snapshot
import HidDescriptor.Proofs.Layout.Expansion
import HidDescriptor.Proofs.Layout.Report
import HidDescriptor.Proofs.Layout.Grouping
import HidDescriptor.Proofs.Layout
import HidDescriptor.Proofs.Cursor
import HidDescriptor.Proofs.Acceptance
import HidDescriptor.Proofs.TopLevel
import HidDescriptor.Proofs.Layout.Independence
import HidDescriptor.Proofs.Stopping
import HidDescriptor.Proofs.ItemTable
import HidDescriptor.Proofs.Encoding
import HidDescriptor.Proofs.Records
import HidDescriptor.Proofs.Layout.Growth
import HidDescriptor.Proofs.Skipping
import HidDescriptor.Proofs.Feeding
import HidDescriptor.Proofs.Reordering
import HidDescriptor.Proofs.UsageRange
import HidDescriptor.Proofs.Splitting
import HidDescriptor.Proofs.InPlace
import HidDescriptor.Proofs.Walking
import HidDescriptor.Proofs.Usages
import HidDescriptor.Proofs.Layout.Sizes
import HidDescriptor.Proofs.TopLevel.Earliest
import HidDescriptor.Proofs.Messages
import HidDescriptor.Proofs.Device.Identification
import HidDescriptor.Proofs.Device.Selection
