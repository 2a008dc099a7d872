import Breadboard.Assembly.Basic
import Breadboard.Assembly.Diagnostics
import Breadboard.Assembly.Linking
import Breadboard.Assembly.Placement
import Breadboard.Blueprint.Basic
import Breadboard.Blueprint.Check
import Breadboard.Blueprint.Store
import Breadboard.Circuit.Basic
import Breadboard.Circuit.Document
import Breadboard.Circuit.Motion
import Breadboard.Circuit.Removal
import Breadboard.Circuit.Retouch
import Breadboard.Command.Arguments
import Breadboard.Command.Run
import Breadboard.Draft.Circuit
import Breadboard.Draft.Device
import Breadboard.Draft.Plan
import Breadboard.Draft.Slot
import Breadboard.Draft.Step
import Breadboard.Draft.Tuple
import Breadboard.Draft.Turn
import Breadboard.Draft.Wiring
import Breadboard.Fault
import Breadboard.Folder.Location
import Breadboard.Folder.Tree
import Breadboard.Grid.Dense
import Breadboard.Grid.Heading
import Breadboard.Grid.Point
import Breadboard.Grid.Reading
import Breadboard.Grid.Storage
import Breadboard.Grid.Turn
import Breadboard.Grid.WireTurn
import Breadboard.Index
import Breadboard.Json.Access
import Breadboard.Json.Basic
import Breadboard.Json.Display
import Breadboard.Json.Reader
import Breadboard.Json.Writer
import Breadboard.Keyed
import Breadboard.Main
import Breadboard.Notice
import Breadboard.Number.Double
import Breadboard.Number.Quantity
import Breadboard.Number.Shortest
import Breadboard.Number.Word
import Breadboard.Palette
import Breadboard.Part.Basic
import Breadboard.Part.Catalog
import Breadboard.Part.Record
import Breadboard.Path
import Breadboard.Preset.Arithmetic
import Breadboard.Preset.Basic
import Breadboard.Preset.Catalog
import Breadboard.Preset.Cube
import Breadboard.Preset.Design
import Breadboard.Proofs.Assembly.Building
import Breadboard.Proofs.Assembly.Connections
import Breadboard.Proofs.Assembly.Designs
import Breadboard.Proofs.Assembly.Flattening
import Breadboard.Proofs.Assembly.Layout
import Breadboard.Proofs.Circuit.BoundingBox
import Breadboard.Proofs.Circuit.InRange
import Breadboard.Proofs.Circuit.Renumbered
import Breadboard.Proofs.Circuit.Used
import Breadboard.Proofs.Grid.Dense
import Breadboard.Proofs.Loop
import Breadboard.Proofs.Preset.Adder
import Breadboard.Proofs.Preset.CompactAdder
import Breadboard.Proofs.Preset.FullAdder
import Breadboard.Proofs.Preset.GateRows
import Breadboard.Proofs.Renumbering
import Breadboard.Proofs.Signal.Gates
import Breadboard.Proofs.Signal.Network
import Breadboard.Proofs.Signal.Removal
import Breadboard.Proofs.Signal.Sources
import Breadboard.Proofs.Wiring.Numerals
import Breadboard.Proofs.Wiring.RowTargets
import Breadboard.Proofs.Wiring.Rows
import Breadboard.Proofs.Wiring.SlotPlan
import Breadboard.Renumbering
import Breadboard.Scattered
import Breadboard.Settings
import Breadboard.Slot
import Breadboard.Sorted
import Breadboard.Stepwise
import Breadboard.Text.Blank
import Breadboard.Text.Digit
import Breadboard.Text.Numeral
import Breadboard.Text.Printable
import Breadboard.Text.Quoted
import Breadboard.Text.Unpaired
import Breadboard.Wiring.Basic
import Breadboard.Wiring.Frame
import Breadboard.Wiring.Scope
import Breadboard.Wiring.SlotPlan
import Breadboard.Proofs.Preset.Inverter
import Breadboard.Proofs.Circuit.Closed
import Breadboard.Proofs.Assembly.Closed
import Breadboard.Proofs.Assembly.Reordering
import Breadboard.Proofs.Assembly.Forwarding
import Breadboard.Proofs.Assembly.Nesting
import Breadboard.Proofs.Assembly.Unnesting
import Breadboard.Proofs.Assembly.Ready
import Breadboard.Proofs.Assembly.Pruning
import Breadboard.Proofs.Assembly.Embedding
import Breadboard.Proofs.Assembly.Grown
import Breadboard.Proofs.Wiring.Drafting
import Breadboard.Proofs.Assembly.Outcomes
import Breadboard.Proofs.Circuit.Decoding
import Breadboard.Proofs.Assembly.Isolation
import Breadboard.Proofs.Json.RoundTrip
import Breadboard.Proofs.Folder.Tree
import Breadboard.Proofs.Blueprint.Lookup
import Breadboard.Proofs.Blueprint.Writing
import Breadboard.Proofs.Blueprint.Documents
import Breadboard.Proofs.Blueprint.Shelf
import Breadboard.Proofs.Blueprint.History
import Breadboard.Proofs.Blueprint.Damaged
import Breadboard.Proofs.Assembly.Sectors
import Breadboard.Proofs.Assembly.Refusals
import Breadboard.Proofs.Assembly.Turning
import Breadboard.Proofs.Preset.Footprint
import Breadboard.Proofs.Sorted
import Breadboard.Proofs.Wiring.Joint
import Breadboard.Proofs.Assembly.Pointwise
import Breadboard.Proofs.Preset.Overrides
import Breadboard.Proofs.Command.Assignments
import Breadboard.Proofs.Path
import Breadboard.Proofs.Wiring.Agreeing
import Breadboard.Proofs.Assembly.Copied
import Breadboard.Proofs.Circuit.Induced
import Breadboard.Proofs.Circuit.Reaching
import Breadboard.Proofs.Circuit.Replaced
import Breadboard.Proofs.Assembly.Overflow
import Breadboard.Proofs.Grid.Matrices
import Breadboard.Proofs.Grid.Storage
import Breadboard.Proofs.Assembly.Poses
import Breadboard.Proofs.Assembly.Bulk
import Breadboard.Proofs.Preset.Cube
import Breadboard.Proofs.Grid.Layout
import Breadboard.Proofs.Circuit.Coloured
import Breadboard.Proofs.Wiring.Spelling
import Breadboard.Proofs.Wiring.Drafts
import Breadboard.Proofs.Preset.Built
