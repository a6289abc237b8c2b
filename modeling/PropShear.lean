import PropShear.Main
import PropShear.Regex.Reader
import PropShear.Proofs.Removal.Detection
import PropShear.Proofs.Removal.Nesting
import PropShear.Proofs.Removal.Monotone
import PropShear.Proofs.Removal.Mirror
import PropShear.Proofs.Removal.Idempotent
import PropShear.Proofs.SourceMap.Mappings
import PropShear.Proofs.Edit.Trace
import PropShear.Proofs.Edit.Calls
import PropShear.Proofs.Edit.SourceMap
import PropShear.Proofs.Edit.Lookup
import PropShear.Proofs.Edit.Order
import PropShear.Proofs.Outcome.Isolation
import PropShear.Proofs.Outcome.InPlace
import PropShear.Proofs.Disk.Growth
import PropShear.Proofs.Log.Delivery
import PropShear.Proofs.Command.Steps
import PropShear.Proofs.Outcome.Landing
import PropShear.Proofs.Command.Confinement
import PropShear.Proofs.Options.Override
import PropShear.Proofs.Outcome.Brief
import PropShear.Proofs.Command.Agreement
import PropShear.Proofs.Outcome.Map
import PropShear.Proofs.Outcome.Target
import PropShear.Proofs.Outcome.Status
import PropShear.Proofs.Removal.Cooked
import PropShear.Proofs.Glob.Matching
import PropShear.Proofs.Glob.Directory
import PropShear.Proofs.Options.Configuration
import PropShear.Proofs.Command.Configuration
import PropShear.Proofs.Path.Collapse
import PropShear.Proofs.Tree.Traversal
import PropShear.Proofs.Filter.Eligibility
import PropShear.Proofs.Glob.Escape
import PropShear.Proofs.Filter.Anchor
import PropShear.Proofs.Options.Blank
import PropShear.Proofs.Tree.Fault
import PropShear.Proofs.Disk.Discovery
import PropShear.Proofs.Version
import PropShear.Proofs.Log.Calls
import PropShear.Proofs.SourceMap.Canonical
import PropShear.Proofs.SourceMap.Reading
import PropShear.Proofs.Json.Reader
import PropShear.Proofs.Json.RoundTrip
import PropShear.Proofs.Removal.Climb
import PropShear.Proofs.Text.Base64
import PropShear.Proofs.SourceMap.Serialised
