import UnusedImports.Checker
import UnusedImports.Patch
import UnusedImports.Report
import UnusedImports.Settings.File
import UnusedImports.Settings.Search
import UnusedImports.Proofs.Source.Removal
import UnusedImports.Proofs.Tracker.Isolation
import UnusedImports.Proofs.Tracker.Accounts
import UnusedImports.Proofs.Tracker.EntryOrder
import UnusedImports.Proofs.Fix.Muting
import UnusedImports.Proofs.Fix.Suppression
import UnusedImports.Proofs.Source.Suppression
import UnusedImports.Proofs.Edit.Splice
import UnusedImports.Proofs.Source.Comments
import UnusedImports.Proofs.Source.Braces
import UnusedImports.Proofs.Settings.Accepted
import UnusedImports.Proofs.Settings.Owners
import UnusedImports.Proofs.Protocol.Conformance
import UnusedImports.Proofs.Protocol.Diagnostics
import UnusedImports.Proofs.Deprecation.Reading
import UnusedImports.Proofs.Fix.Offsets
import UnusedImports.Proofs.Settings.Usable
import UnusedImports.Proofs.Edit.Stages
import UnusedImports.Proofs.Diff.Script
import UnusedImports.Proofs.Diff.Unchanged
import UnusedImports.Proofs.Diff.Hunks
import UnusedImports.Proofs.Diff.Endings
import UnusedImports.Proofs.Diff.Readable
import UnusedImports.Proofs.Patch.Rewriting
import UnusedImports.Proofs.Scoping.Traversal
import UnusedImports.Proofs.Scoping.Groups
import UnusedImports.Proofs.Text.Position
import UnusedImports.Proofs.Protocol.Ranges
import UnusedImports.Proofs.Protocol.Format
import UnusedImports.Proofs.Settings.Loading
import UnusedImports.Proofs.Deprecation.Annotations
import UnusedImports.Proofs.Deprecation.Writing
import UnusedImports.Proofs.Source.Rendering
import UnusedImports.Proofs.Text.BlankLines
import UnusedImports.Proofs.Value.Equality
import UnusedImports.Proofs.Yaml.Order
import UnusedImports.Proofs.Settings.Saving
import UnusedImports.Proofs.Settings.Nearest
import UnusedImports.Proofs.Fix.Separation
