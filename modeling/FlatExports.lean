import FlatExports.Main
import FlatExports.Outcome
import FlatExports.Proofs.Module.Items
import FlatExports.Proofs.Resolution.Search
import FlatExports.Proofs.Resolution.Collection
import FlatExports.Proofs.Resolution.Provision
import FlatExports.Proofs.Module.Scan
import FlatExports.Proofs.Resolution.Chains
import FlatExports.Proofs.Resolution.Agreement
import FlatExports.Proofs.Location
import FlatExports.Proofs.Volume.Walk
import FlatExports.Proofs.Volume.Resolve
import FlatExports.Proofs.Specifier
import FlatExports.Proofs.Probe
import FlatExports.Proofs.Resolution.Origin
import FlatExports.Proofs.Resolved.Group
import FlatExports.Proofs.Statement.Render
import FlatExports.Proofs.Statement.Items
import FlatExports.Proofs.Statement.Stability
import FlatExports.Proofs.Statement.Fixpoint
import FlatExports.Proofs.Text.Utf8
import FlatExports.Proofs.Text.Literal
import FlatExports.Proofs.Resolution.Entries
import FlatExports.Proofs.Session
import FlatExports.Proofs.Module.Span
import FlatExports.Proofs.Resolution.Home
import FlatExports.Proofs.Statement.Publication
import FlatExports.Proofs.Session.Reads
import FlatExports.Proofs.Diagnostics
import FlatExports.Proofs.Statement.Sources
import FlatExports.Proofs.Statement.Locals
import FlatExports.Proofs.Resolved.Survivors
import FlatExports.Proofs.Volume.Edit
import FlatExports.Proofs.Flatten
import FlatExports.Proofs.Text.Lines
import FlatExports.Proofs.Text.Ranges
import FlatExports.Proofs.Module.Cutting
import FlatExports.Proofs.Module.Splice
import FlatExports.Proofs.Module.Block
import FlatExports.Proofs.Module.Again
import FlatExports.Proofs.Resolved.Values
import FlatExports.Proofs.Resolution.Fallback
import FlatExports.Proofs.Statement.Print
import FlatExports.Proofs.Module.Failures
import FlatExports.Proofs.Resolution.Depth
import FlatExports.Proofs.Resolution.Straight
import FlatExports.Proofs.Module.Unbound
import FlatExports.Proofs.Statement.Identifiers
import FlatExports.Proofs.Module.Hoisting
import FlatExports.Proofs.Resolution.Naming
import FlatExports.Proofs.Resolved.Partition
import FlatExports.Proofs.Diagnostics.Packages
import FlatExports.Proofs.Probe.Identity
import FlatExports.Proofs.Probe.Refusal
import FlatExports.Proofs.Diagnostics.References
import FlatExports.Proofs.Syntax.Places
import FlatExports.Proofs.Syntax.Faults
import FlatExports.Proofs.Module.Patterns
